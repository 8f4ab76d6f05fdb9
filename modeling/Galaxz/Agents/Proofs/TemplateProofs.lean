import Galaxz.Agents.Loader

/-!
# When rendering is a simultaneous substitution

The loop is followed on the pieces of the template. As long as it replaces only placeholders of the template,
the pieces are its cut at the placeholders of the variables that are done.
-/

namespace Galaxz

open Replace

theorem placeholder_ne (var : TemplateVar) : placeholder var ≠ [] := List.cons_ne_nil _ _

/-! ## Leftmost occurrences -/

namespace Replace

/-- What is replaced are occurrences. -/
theorem prefix_of_mem_leftmostFrom {w : List Char} (hw : w ≠ []) {i j : ℕ} {cs : List Char}
    (h : j ∈ leftmostFrom w 0 i cs) : w <+: cs.drop (j - i) := by
  induction hn : cs.length using Nat.strong_induction_on generalizing cs i with
  | _ n ih =>
    cases cs with
    | nil => cases h
    | cons c cs =>
      by_cases hfront : w <+: c :: cs
      · have hpos := List.length_pos_of_ne_nil hw
        rw [leftmostFrom_of_starts hw hfront] at h
        rcases List.mem_cons.mp h with rfl | h
        · rw [Nat.sub_self]
          exact hfront
        · have hle := le_of_mem_leftmostFrom h
          have hlt : ((c :: cs).drop w.length).length < n := by
            rw [List.length_drop, ← hn]
            have hlen := hfront.length_le
            omega
          have hstarts := ih _ hlt h rfl
          rw [List.drop_drop] at hstarts
          have hsum : w.length + (j - (i + w.length)) = j - i := by omega
          rw [hsum] at hstarts
          exact hstarts
      · rw [leftmostFrom_of_not_starts hfront] at h
        have hle := le_of_mem_leftmostFrom h
        have hlt : cs.length < n := by
          rw [← hn, List.length_cons]
          omega
        have hstarts := ih _ hlt h rfl
        have hsub : j - i = (j - (i + 1)) + 1 := by omega
        rw [hsub]
        exact hstarts

/-- An occurrence is met by one that is replaced and does not begin after it. -/
theorem exists_leftmostFrom {w : List Char} (hw : w ≠ []) {i j : ℕ} {cs : List Char} (hij : i ≤ j)
    (h : w <+: cs.drop (j - i)) : ∃ k ∈ leftmostFrom w 0 i cs, k ≤ j ∧ j < k + w.length := by
  have hpos := List.length_pos_of_ne_nil hw
  induction hn : cs.length using Nat.strong_induction_on generalizing cs i with
  | _ n ih =>
    cases cs with
    | nil =>
      rw [List.drop_nil] at h
      exact absurd (List.prefix_nil.mp h) hw
    | cons c cs =>
      by_cases hfront : w <+: c :: cs
      · rw [leftmostFrom_of_starts hw hfront]
        by_cases hnear : j < i + w.length
        · exact ⟨i, List.mem_cons_self, hij, hnear⟩
        · have hlt : ((c :: cs).drop w.length).length < n := by
            rw [List.length_drop, ← hn]
            have hlen := hfront.length_le
            omega
          have hrest : w <+: ((c :: cs).drop w.length).drop (j - (i + w.length)) := by
            rw [List.drop_drop]
            have hsum : w.length + (j - (i + w.length)) = j - i := by omega
            rw [hsum]
            exact h
          obtain ⟨k, hk, hle, hlt'⟩ := ih _ hlt (i := i + w.length) (by omega) hrest rfl
          exact ⟨k, List.mem_cons_of_mem i hk, hle, hlt'⟩
      · rw [leftmostFrom_of_not_starts hfront]
        have hne : i ≠ j := by
          rintro rfl
          rw [Nat.sub_self] at h
          exact hfront h
        have hlt : cs.length < n := by
          rw [← hn, List.length_cons]
          omega
        have hrest : w <+: cs.drop (j - (i + 1)) := by
          have hsub : j - i = (j - (i + 1)) + 1 := by omega
          rw [hsub] at h
          exact h
        exact ih _ hlt (by omega) hrest rfl

/-- Occurrences that do not overlap are all replaced. -/
theorem mem_leftmost_iff {w text : List Char} (hw : w ≠ [])
    (hapart : ∀ i j, w <+: text.drop i → w <+: text.drop j → i = j ∨ i + w.length ≤ j ∨ j + w.length ≤ i) (j : ℕ) :
    j ∈ leftmostFrom w 0 0 text ↔ w <+: text.drop j := by
  constructor
  · exact fun h => prefix_of_mem_leftmostFrom hw h
  · intro h
    obtain ⟨k, hk, hle, hlt⟩ := exists_leftmostFrom hw (Nat.zero_le j) h
    have hkprefix := prefix_of_mem_leftmostFrom hw hk
    rcases hapart k j hkprefix h with rfl | h | h
    · exact hk
    · omega
    · have hpos := List.length_pos_of_ne_nil hw
      omega

end Replace

/-! ## Cuts -/

section Cuts

variable {template : String} {vars : List TemplateVar}

theorem IsCut.congr {ws us : List TemplateVar} {ps : List (Piece TemplateVar)} (h : IsCut template ws ps)
    (hmem : ∀ v, v ∈ ws ↔ v ∈ us) : IsCut template us ps :=
  ⟨h.source, fun i v => by rw [h.blocks, hmem]⟩

/-- There is one cut only. -/
theorem IsCut.unique {ps qs : List (Piece TemplateVar)} (hp : IsCut template vars ps) (hq : IsCut template vars qs) : ps = qs := by
  apply eq_of_blocksFrom placeholder_ne (i := 0)
  · rw [hp.source, hq.source]
  · intro j v
    rw [hp.blocks, hq.blocks]

/-- Before the loop nothing is cut. -/
theorem isCut_kept (template : String) : IsCut template [] (template.toList.map .kept) := by
  have hsource := @source_kept_append TemplateVar placeholder template.toList []
  have hblocks := @blocksFrom_kept_append TemplateVar placeholder 0 template.toList []
  rw [List.append_nil] at hsource hblocks
  refine ⟨hsource.trans (List.append_nil _), fun i v => ?_⟩
  rw [hblocks]
  simp [blocksFrom]

theorem filled_kept (template : String) : filled (template.toList.map .kept) = traced template.toList := by
  have hshown := @shownFrom_kept_append TemplateVar placeholder (·.2) 0 template.toList []
  rw [List.append_nil] at hshown
  unfold filled
  rw [hshown]
  exact List.append_nil _

/-- The placeholders of one variable more. -/
theorem IsCut.hide {ws : List TemplateVar} {ps : List (Piece TemplateVar)} {v : TemplateVar} (h : IsCut template ws ps)
    (hapart : PlaceholdersApart template vars) (hws : ∀ w ∈ ws, w ∈ vars) (hv : v ∈ vars) (hnew : v ∉ ws) :
    IsCut template (v :: ws) (hide placeholder v ps) := by
  have hleft : ∀ j, j ∈ leftmostFrom (placeholder v) 0 0 template.toList ↔ StandsAt template v j := by
    refine mem_leftmost_iff (placeholder_ne v) fun i j hi hj => ?_
    rcases hapart v hv v hv i j hi hj with ⟨heq, -⟩ | h
    · exact Or.inl heq
    · exact Or.inr h
  refine ⟨(source_hide (placeholder_ne v) ps).trans h.source, fun j c => ?_⟩
  have hblocks := mem_blocksFrom_hide_iff placeholder_ne v ps 0 (by
    intro i hi k c hk
    rw [h.source, hleft] at hi
    obtain ⟨hc, hk⟩ := (h.blocks k c).mp hk
    rcases hapart v hv c (hws c hc) i k hi hk with ⟨-, heq⟩ | hsep
    · exact absurd (heq ▸ hc) hnew
    · exact hsep) j c
  rw [hblocks, h.blocks, h.source, hleft, List.mem_cons]
  constructor
  · rintro (⟨hc, hj⟩ | ⟨rfl, hj⟩)
    · exact ⟨Or.inr hc, hj⟩
    · exact ⟨Or.inl rfl, hj⟩
  · rintro ⟨rfl | hc, hj⟩
    · exact Or.inr ⟨rfl, hj⟩
    · exact Or.inl ⟨hc, hj⟩

/-- The cut keeps the placeholders apart. -/
theorem IsCut.apart {ps : List (Piece TemplateVar)} (h : IsCut template vars ps) : PlaceholdersApart template vars :=
  fun v hv w hw i j hi hj => blocksFrom_apart ((h.blocks i v).mpr ⟨hv, hi⟩) ((h.blocks j w).mpr ⟨hw, hj⟩)

end Cuts

/-! ## The loop -/

theorem renderSlices_append (text : List Traced) (us ws : List TemplateVar) :
    renderSlices text (us ++ ws) = renderSlices text us ++ renderSlices (renderLoop (·.1) inserted text us) ws := by
  induction us generalizing text with
  | nil => rfl
  | cons u us ih =>
    show slices (·.1) (placeholder u) text ++ renderSlices _ (us ++ ws) = (slices (·.1) (placeholder u) text ++ _) ++ _
    rw [ih, List.append_assoc]
    rfl

theorem map_renderLoop {α : Type} (key : α → Char) (put : List Char → List α) (hput : ∀ new, (put new).map key = new)
    (text : List α) (vars : List TemplateVar) :
    (renderLoop key put text vars).map key = renderLoop id id (text.map key) vars := by
  induction vars generalizing text with
  | nil => rfl
  | cons var vars ih =>
    show (renderLoop key put (replace key (placeholder var) (put var.2) text) vars).map key =
      renderLoop id id (replace id (placeholder var) var.2 (text.map key)) vars
    rw [ih, map_replace, hput]

theorem map_inserted (new : List Char) : (inserted new).map (·.1) = new := by
  unfold inserted
  rw [List.map_map]
  exact List.map_id _

section Loop

variable {template : String} {vars : List TemplateVar}

/-- A loop that replaces only placeholders of the template cuts it. -/
theorem exists_cut_of_original (hapart : PlaceholdersApart template vars) (us : List TemplateVar) :
    ∀ {ws : List TemplateVar} {ps : List (Piece TemplateVar)}, IsCut template ws ps → (∀ w ∈ ws, w ∈ vars) →
      (∀ u ∈ us, u ∈ vars) → us.Nodup → (∀ u ∈ us, u ∉ ws) → (∀ slice ∈ renderSlices (filled ps) us, Original slice) →
      ∃ qs, IsCut template (us ++ ws) qs ∧ renderLoop (·.1) inserted (filled ps) us = filled qs := by
  induction us with
  | nil => exact fun h _ _ _ _ _ => ⟨_, h, rfl⟩
  | cons u us ih =>
    intro ws ps h hws hus hnodup hnew horiginal
    obtain ⟨hu, hnodup⟩ := List.nodup_cons.mp hnodup
    have hclean : Replace.Clean (placeholder u) (filled ps) := fun slice hslice =>
      horiginal slice (List.mem_append_left _ hslice)
    have hreplace : replace (·.1) (placeholder u) (inserted u.2) (filled ps) = filled (hide placeholder u ps) :=
      replace_shownFrom placeholder_ne u ps 0 hclean
    have hstep := h.hide hapart hws (hus u List.mem_cons_self) (hnew u List.mem_cons_self)
    obtain ⟨qs, hqs, hloop⟩ := ih hstep (by
        intro w hw
        rcases List.mem_cons.mp hw with rfl | hw
        · exact hus w List.mem_cons_self
        · exact hws w hw) (fun w hw => hus w (List.mem_cons_of_mem u hw)) hnodup (by
        intro w hw hmem
        rcases List.mem_cons.mp hmem with rfl | hmem
        · exact hu hw
        · exact hnew w (List.mem_cons_of_mem u hw) hmem) (by
        intro slice hslice
        apply horiginal slice
        refine List.mem_append_right _ ?_
        rw [hreplace]
        exact hslice)
    refine ⟨qs, hqs.congr fun v => ?_, ?_⟩
    · simp only [List.mem_append, List.mem_cons]
      tauto
    · show renderLoop (·.1) inserted (replace (·.1) (placeholder u) (inserted u.2) (filled ps)) us = filled qs
      rw [hreplace, hloop]

/-- Where values are inert the loop replaces only placeholders of the template. -/
theorem original_of_inert (hapart : PlaceholdersApart template vars) (hinert : ValuesInert template vars)
    (us : List TemplateVar) :
    ∀ {ws : List TemplateVar} {ps : List (Piece TemplateVar)}, IsCut template ws ps → (∀ w ∈ ws, w ∈ vars) →
      (∀ u ∈ us, u ∈ vars) → us.Nodup → (∀ u ∈ us, u ∉ ws) → ∀ slice ∈ renderSlices (filled ps) us, Original slice := by
  induction us with
  | nil =>
    intro ws ps _ _ _ _ _ slice hslice
    cases hslice
  | cons u us ih =>
    intro ws ps h hws hus hnodup hnew slice hslice
    obtain ⟨hu, hnodup⟩ := List.nodup_cons.mp hnodup
    have hclean := hinert ws ps hws h u (hus u List.mem_cons_self) (hnew u List.mem_cons_self)
    have hreplace : replace (·.1) (placeholder u) (inserted u.2) (filled ps) = filled (hide placeholder u ps) :=
      replace_shownFrom placeholder_ne u ps 0 hclean
    rcases List.mem_append.mp hslice with hslice | hslice
    · exact hclean slice hslice
    · rw [hreplace] at hslice
      refine ih (h.hide hapart hws (hus u List.mem_cons_self) (hnew u List.mem_cons_self)) ?_
        (fun w hw => hus w (List.mem_cons_of_mem u hw)) hnodup ?_ slice hslice
      · intro w hw
        rcases List.mem_cons.mp hw with rfl | hw
        · exact hus w List.mem_cons_self
        · exact hws w hw
      · intro w hw hmem
        rcases List.mem_cons.mp hmem with rfl | hmem
        · exact hu hw
        · exact hnew w (List.mem_cons_of_mem u hw) hmem

end Loop

/-! ## Rendering -/

section Render

variable {V : Type} (str : V → String)

theorem nodup_templateVars (vars : Mapping String V) : (templateVars str vars).Nodup := by
  apply List.Nodup.of_map (·.1)
  unfold templateVars
  rw [List.map_map]
  exact vars.keys_nodup

theorem mem_templateVars_perm {others vars : Mapping String V} (h : others.items.Perm vars.items) (v : TemplateVar) :
    v ∈ templateVars str others ↔ v ∈ templateVars str vars := (h.map _).mem_iff

theorem render_toList (template : String) (vars : Mapping String V) :
    (render str template vars).toList = (renderLoop (·.1) inserted (traced template.toList) (templateVars str vars)).map (·.1) := by
  rw [map_renderLoop _ _ map_inserted, traced, map_traceFrom]
  exact String.toList_ofList

/-- Rendering is a simultaneous substitution if and only if the placeholders of the template do not overlap and,
where some variables are filled in, a search for another one finds only placeholders of the template. -/
theorem substitutes_iff (template : String) (vars : Mapping String V) :
    Substitutes str template vars ↔
      PlaceholdersApart template (templateVars str vars) ∧ ValuesInert template (templateVars str vars) := by
  constructor
  · rintro ⟨hresult, hvalues⟩
    obtain ⟨full, hfull, -⟩ := hresult vars (List.Perm.refl _)
    refine ⟨hfull.apart, ?_⟩
    intro done ps hdone hcut v hv hnew
    classical
    -- the order that takes the variables that are done first, and then `v`
    obtain ⟨e, he, rfl⟩ := List.mem_map.mp hv
    have hrest : e ∈ vars.items.filter fun e => ¬ (e.1, (str e.2).toList) ∈ done :=
      List.mem_filter.mpr ⟨he, by simpa using hnew⟩
    obtain ⟨before, after, hsplit⟩ := List.append_of_mem hrest
    have hperm : (vars.items.filter (fun e => (e.1, (str e.2).toList) ∈ done) ++ e :: (before ++ after)).Perm vars.items := by
      have hfilter := List.filter_append_perm (fun e => decide ((e.1, (str e.2).toList) ∈ done)) vars.items
      refine List.Perm.trans ?_ hfilter
      refine List.Perm.append_left _ (List.perm_middle.symm.trans (List.Perm.of_eq ?_))
      rw [← hsplit]
      apply List.filter_congr
      intro x _
      simp
    have hkeys := ((hperm.map (·.1)).nodup_iff).mpr vars.keys_nodup
    have horiginal := hvalues ⟨_, hkeys⟩ hperm
    have hvars : templateVars str ⟨_, hkeys⟩ =
        ((vars.items.filter fun e => (e.1, (str e.2).toList) ∈ done).map fun e => (e.1, (str e.2).toList)) ++
          (e.1, (str e.2).toList) :: (before ++ after).map fun e => (e.1, (str e.2).toList) := by
      unfold templateVars
      rw [List.map_append, List.map_cons]
    rw [hvars, renderSlices_append] at horiginal
    have hnodup := nodup_templateVars str (⟨_, hkeys⟩ : Mapping String V)
    rw [hvars] at hnodup
    obtain ⟨qs, hqs, hloop⟩ := exists_cut_of_original hfull.apart _ (isCut_kept template) (fun w hw => by cases hw) (by
        intro u hu
        obtain ⟨x, hx, rfl⟩ := List.mem_map.mp hu
        exact List.mem_map_of_mem (List.mem_of_mem_filter hx)) hnodup.of_append_left (fun u _ hmem => by cases hmem) (by
        intro slice hslice
        rw [filled_kept] at hslice
        exact horiginal slice (List.mem_append_left _ hslice))
    have hcut' : IsCut template done qs := by
      refine hqs.congr fun w => ?_
      rw [List.append_nil]
      constructor
      · intro hw
        obtain ⟨x, hx, rfl⟩ := List.mem_map.mp hw
        simpa using (List.mem_filter.mp hx).2
      · intro hw
        obtain ⟨x, hx, rfl⟩ := List.mem_map.mp (hdone w hw)
        exact List.mem_map.mpr ⟨x, List.mem_filter.mpr ⟨hx, by simpa using hw⟩, rfl⟩
    rw [filled_kept, hcut'.unique hcut] at hloop
    intro slice hslice
    apply horiginal slice
    refine List.mem_append_right _ ?_
    rw [hloop]
    exact List.mem_append_left _ hslice
  · rintro ⟨hapart, hinert⟩
    have hslices : ∀ others : Mapping String V, others.items.Perm vars.items →
        ∀ slice ∈ renderSlices (traced template.toList) (templateVars str others), Original slice := by
      intro others hothers slice hslice
      rw [← filled_kept] at hslice
      exact original_of_inert hapart hinert _ (isCut_kept template) (fun w hw => by cases hw)
        (fun u hu => (mem_templateVars_perm str hothers u).mp hu) (nodup_templateVars str others)
        (fun u _ hmem => by cases hmem) slice hslice
    refine ⟨fun others hothers => ?_, hslices⟩
    obtain ⟨qs, hqs, hloop⟩ := exists_cut_of_original hapart _ (isCut_kept template) (fun w hw => by cases hw)
      (fun u hu => (mem_templateVars_perm str hothers u).mp hu) (nodup_templateVars str others)
      (fun u _ hmem => by cases hmem) (by
        intro slice hslice
        rw [filled_kept] at hslice
        exact hslices others hothers slice hslice)
    refine ⟨qs, hqs.congr fun v => ?_, ?_⟩
    · rw [List.append_nil]
      exact mem_templateVars_perm str hothers v
    · rw [render_toList, ← filled_kept, hloop]

end Render

/-- A value that looks like the placeholder of a later variable is replaced, in one order and not in the other. -/
theorem value_placeholder_replaced :
    render id "Say {a} to {b}." ⟨[("a", "{b}"), ("b", "x")], by decide⟩ = "Say x to x." ∧
      render id "Say {a} to {b}." ⟨[("b", "x"), ("a", "{b}")], by decide⟩ = "Say {b} to x." ∧
      ¬ Substitutes id "Say {a} to {b}." ⟨[("a", "{b}"), ("b", "x")], by decide⟩ := by
  have hleft : render id "Say {a} to {b}." ⟨[("a", "{b}"), ("b", "x")], by decide⟩ = "Say x to x." := by decide +kernel
  have hright : render id "Say {a} to {b}." ⟨[("b", "x"), ("a", "{b}")], by decide⟩ = "Say {b} to x." := by decide +kernel
  refine ⟨hleft, hright, fun h => ?_⟩
  obtain ⟨ps, hps, htext⟩ := h.result ⟨[("a", "{b}"), ("b", "x")], by decide⟩ (List.Perm.refl _)
  obtain ⟨qs, hqs, htext'⟩ := h.result ⟨[("b", "x"), ("a", "{b}")], by decide⟩ (List.Perm.swap _ _ _)
  rw [hps.unique hqs, ← htext', hleft, hright] at htext
  exact absurd htext (by decide)

end Galaxz
