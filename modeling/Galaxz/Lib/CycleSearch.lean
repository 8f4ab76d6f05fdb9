import Mathlib.Data.Finset.Card
import Mathlib.Data.Finset.Filter
import Mathlib.Logic.Relation

/-!
# Depth-first search for a cycle

The recursive search with three colours: a grey vertex is on the path that led to the present one, a black
vertex is done. The colours are shared by the whole search, which stops at the first edge into a grey vertex.
It finds one exactly when the graph has a cycle.
-/

namespace Galaxz.CycleSearch

open Relation

inductive Color where
  | white
  | grey
  | black
deriving DecidableEq

variable {α : Type}

/-- What a search returns: whether it met a grey vertex, and the colours it leaves. -/
abbrev Outcome (α : Type) := Bool × (α → Color)

/-- The successors of a vertex, one after the other. Only the white ones are visited. -/
def scan (visit : (α → Color) → α → Option (Outcome α)) : List α → (α → Color) → Option (Outcome α)
  | [], color => some (false, color)
  | v :: vs, color => match color v with
    | .grey => some (true, color)
    | .black => scan visit vs color
    | .white => (visit color v).bind fun found =>
      if found.1 then some (true, found.2) else scan visit vs found.2

section

variable [DecidableEq α]

/-- The visit of a vertex, `none` when the recursion is deeper than `fuel`. -/
def visit (edges : α → List α) : ℕ → (α → Color) → α → Option (Outcome α)
  | 0, _, _ => none
  | fuel + 1, color, u =>
    (scan (visit edges fuel) (edges u) (Function.update color u .grey)).map fun found =>
      (found.1, if found.1 then found.2 else Function.update found.2 u .black)

/-- The visits of all vertices that are still white when their turn comes. -/
def search (edges : α → List α) (fuel : ℕ) : List α → (α → Color) → Option (Outcome α)
  | [], color => some (false, color)
  | v :: vs, color => match color v with
    | .white => (visit edges fuel color v).bind fun found =>
      if found.1 then some (true, found.2) else search edges fuel vs found.2
    | _ => search edges fuel vs color

end

/-! ## The invariant -/

/-- There is an edge from the first vertex to the second. -/
def Edge (edges : α → List α) (u v : α) : Prop := v ∈ edges u

/-- The graph has a cycle. -/
def Cyclic (edges : α → List α) : Prop := ∃ v, TransGen (Edge edges) v v

/-- Black vertices lead to black vertices only, and are on no cycle. -/
structure BlackDone (edges : α → List α) (color : α → Color) : Prop where
  closed {u v : α} (hu : color u = .black) (huv : Edge edges u v) : color v = .black
  acyclic {u : α} (hu : color u = .black) : ¬ TransGen (Edge edges) u u

/-- What a search that finds nothing does to the colours: the grey vertices are the same, and the black ones
stay black. -/
structure Extends (before after : α → Color) : Prop where
  grey (v : α) : after v = .grey ↔ before v = .grey
  black {v : α} (hv : before v = .black) : after v = .black

theorem Extends.refl (color : α → Color) : Extends color color := ⟨fun _ => Iff.rfl, fun hv => hv⟩

theorem Extends.trans {a b c : α → Color} (hab : Extends a b) (hbc : Extends b c) : Extends a c :=
  ⟨fun v => (hbc.grey v).trans (hab.grey v), fun hv => hbc.black (hab.black hv)⟩

/-- No vertex turns white. -/
theorem Extends.white {before after : α → Color} (h : Extends before after) {v : α} (hv : after v = .white) :
    before v = .white := by
  cases hcolor : before v with
  | white => rfl
  | grey =>
    rw [(h.grey v).mpr hcolor] at hv
    cases hv
  | black =>
    rw [h.black hcolor] at hv
    cases hv

/-- From a black vertex only black ones are reached. -/
theorem BlackDone.reach {edges : α → List α} {color : α → Color} (h : BlackDone edges color) {u v : α}
    (hu : color u = .black) (huv : ReflTransGen (Edge edges) u v) : color v = .black := by
  induction huv with
  | refl => exact hu
  | tail _ hedge ih => exact h.closed ih hedge

/-- A search met a grey vertex only if there is a cycle, and has otherwise blackened what it had to. -/
def Correct (edges : α → List α) (targets : List α) (color : α → Color) (found : Outcome α) : Prop :=
  (found.1 = true → Cyclic edges) ∧
  (found.1 = false → Extends color found.2 ∧ BlackDone edges found.2 ∧ ∀ v ∈ targets, found.2 v = .black)

section Steps

variable {edges : α → List α}

/-- The first target is black already. -/
theorem Correct.black {vs : List α} {v : α} {color : α → Color} {found : Outcome α} (hv : color v = .black)
    (h : Correct edges vs color found) : Correct edges (v :: vs) color found := by
  refine ⟨h.1, fun hmet => ?_⟩
  obtain ⟨hextends, hdone, hall⟩ := h.2 hmet
  refine ⟨hextends, hdone, fun w hw => ?_⟩
  rcases List.mem_cons.mp hw with rfl | hw
  · exact hextends.black hv
  · exact hall w hw

/-- The search goes on behind the first target. -/
theorem Correct.cons {vs : List α} {v : α} {color : α → Color} {first found : Outcome α}
    (hfirst : Correct edges [v] color first) (hmet : first.1 = false) (hrest : Correct edges vs first.2 found) :
    Correct edges (v :: vs) color found := by
  obtain ⟨hextends, -, hblack⟩ := hfirst.2 hmet
  refine ⟨hrest.1, fun h => ?_⟩
  obtain ⟨hextends', hdone, hall⟩ := hrest.2 h
  refine ⟨hextends.trans hextends', hdone, fun w hw => ?_⟩
  rcases List.mem_cons.mp hw with rfl | hw
  · exact hextends'.black (hblack w List.mem_cons_self)
  · exact hall w hw

/-- The successors of the grey vertex `u`, on the path of the grey vertices. -/
theorem scan_correct (bound : (α → Color) → Prop) {visit : (α → Color) → α → Option (Outcome α)} {u : α} {vs : List α}
    {color : α → Color} (hbound : ∀ {a b}, bound a → Extends a b → bound b)
    (hvisit : ∀ {color : α → Color} {v : α}, bound color → v ∈ edges u → color v = .white → BlackDone edges color →
      (∀ g, color g = .grey → TransGen (Edge edges) g v) → ∃ found, visit color v = some found ∧
        Correct edges [v] color found)
    (hvs : ∀ v ∈ vs, v ∈ edges u) (hcolor : bound color) (hblack : BlackDone edges color)
    (hpath : ∀ g, color g = .grey → ReflTransGen (Edge edges) g u) :
    ∃ found, scan visit vs color = some found ∧ Correct edges vs color found := by
  induction vs generalizing color with
  | nil =>
    exact ⟨_, rfl, fun h => (by cases h), fun _ => ⟨.refl color, hblack, fun v hv => absurd hv List.not_mem_nil⟩⟩
  | cons v vs ih =>
    have hedge : Edge edges u v := hvs v List.mem_cons_self
    have hrest : ∀ v ∈ vs, v ∈ edges u := fun w hw => hvs w (List.mem_cons_of_mem _ hw)
    cases hv : color v with
    | grey =>
      refine ⟨(true, color), by simp only [scan, hv], fun _ => ⟨u, ?_⟩, fun h => (by cases h)⟩
      exact TransGen.head' hedge (hpath v hv)
    | black =>
      obtain ⟨found, hfound, hcorrect⟩ := ih hrest hcolor hblack hpath
      exact ⟨found, by simp only [scan, hv, hfound], hcorrect.black hv⟩
    | white =>
      have hgrey : ∀ g, color g = .grey → TransGen (Edge edges) g v :=
        fun g hg => TransGen.tail' (hpath g hg) hedge
      obtain ⟨first, hfirst, hcorrect⟩ := hvisit hcolor hedge hv hblack hgrey
      cases hmet : first.1 with
      | true =>
        exact ⟨(true, first.2), by simp [scan, hv, hfirst, hmet], fun _ => hcorrect.1 hmet, fun h => (by cases h)⟩
      | false =>
        obtain ⟨hextends, hdone, -⟩ := hcorrect.2 hmet
        have hpath' : ∀ g, first.2 g = .grey → ReflTransGen (Edge edges) g u :=
          fun g hg => hpath g ((hextends.grey g).mp hg)
        obtain ⟨found, hfound, hbehind⟩ := ih hrest (hbound hcolor hextends) hdone hpath'
        exact ⟨found, by simp [scan, hv, hfirst, hmet, hfound], hcorrect.cons hmet hbehind⟩

/-- A white vertex whose successors are all black is done. -/
theorem blackDone_update [DecidableEq α] {color after : α → Color} {u : α} (hu : color u = .white)
    (hextends : Extends (Function.update color u .grey) after) (hdone : BlackDone edges after)
    (hall : ∀ v ∈ edges u, after v = .black) : Extends color (Function.update after u .black) ∧
      BlackDone edges (Function.update after u .black) := by
  have hugrey : after u = .grey := (hextends.grey u).mpr (Function.update_self u _ color)
  -- a cycle through `u` would come back to it over black vertices only
  have huacyclic : ¬ TransGen (Edge edges) u u := by
    intro hcycle
    obtain ⟨w, hw, hback⟩ := TransGen.head'_iff.mp hcycle
    have hublack := hdone.reach (hall w hw) hback
    rw [hugrey] at hublack
    cases hublack
  refine ⟨⟨fun v => ?_, fun {v} hv => ?_⟩, ⟨fun {v w} hv hedge => ?_, fun {v} hv => ?_⟩⟩
  · by_cases hvu : v = u
    · subst hvu
      rw [Function.update_self, hu]
      exact ⟨fun h => (by cases h), fun h => (by cases h)⟩
    · rw [Function.update_of_ne hvu, hextends.grey v, Function.update_of_ne hvu]
  · by_cases hvu : v = u
    · rw [hvu, Function.update_self]
    · rw [Function.update_of_ne hvu]
      exact hextends.black (by rw [Function.update_of_ne hvu, hv])
  · have hw : after w = .black := by
      by_cases hvu : v = u
      · exact hall w (hvu ▸ hedge)
      · rw [Function.update_of_ne hvu] at hv
        exact hdone.closed hv hedge
    by_cases hwu : w = u
    · rw [hwu, Function.update_self]
    · rw [Function.update_of_ne hwu, hw]
  · by_cases hvu : v = u
    · rw [hvu]
      exact huacyclic
    · rw [Function.update_of_ne hvu] at hv
      exact hdone.acyclic hv

end Steps

/-! ## The search -/

section Search

variable {edges : α → List α} {vertices : Finset α}

/-- The vertices that are still to be visited. -/
def whites (vertices : Finset α) (color : α → Color) : Finset α := vertices.filter fun v => color v = .white

theorem whites_le_of_extends {before after : α → Color} (h : Extends before after) :
    (whites vertices after).card ≤ (whites vertices before).card := by
  refine Finset.card_le_card fun v hv => ?_
  obtain ⟨hmem, hv⟩ := Finset.mem_filter.mp hv
  exact Finset.mem_filter.mpr ⟨hmem, h.white hv⟩

variable [DecidableEq α]

/-- A visit takes the vertex from the white ones. -/
theorem whites_update_lt {color : α → Color} {u : α} (hmem : u ∈ vertices) (hu : color u = .white) :
    (whites vertices (Function.update color u .grey)).card < (whites vertices color).card := by
  refine Finset.card_lt_card ⟨fun v hv => ?_, fun hsub => ?_⟩
  · obtain ⟨hv, hwhite⟩ := Finset.mem_filter.mp hv
    by_cases hvu : v = u
    · rw [hvu, Function.update_self] at hwhite
      cases hwhite
    · rw [Function.update_of_ne hvu] at hwhite
      exact Finset.mem_filter.mpr ⟨hv, hwhite⟩
  · have hwhite := (Finset.mem_filter.mp (hsub (Finset.mem_filter.mpr ⟨hmem, hu⟩))).2
    rw [Function.update_self] at hwhite
    cases hwhite

/-- A visit with as much fuel as there are white vertices does not run out of it, and is correct. By induction on
the fuel: the vertex is grey while its successors are visited. -/
theorem visit_correct (hedges : ∀ u ∈ vertices, ∀ v ∈ edges u, v ∈ vertices) {fuel : ℕ} {color : α → Color} {u : α}
    (hfuel : (whites vertices color).card ≤ fuel) (hmem : u ∈ vertices) (hu : color u = .white)
    (hblack : BlackDone edges color) (hpath : ∀ g, color g = .grey → TransGen (Edge edges) g u) :
    ∃ found, visit edges fuel color u = some found ∧ Correct edges [u] color found := by
  induction fuel generalizing color u with
  | zero =>
    have hpos : 0 < (whites vertices color).card :=
      Finset.card_pos.mpr ⟨u, Finset.mem_filter.mpr ⟨hmem, hu⟩⟩
    omega
  | succ fuel ih =>
    have hlt := whites_update_lt hmem hu
    have hgrey : ∀ g, Function.update color u .grey g = .grey → ReflTransGen (Edge edges) g u := by
      intro g hg
      by_cases hgu : g = u
      · rw [hgu]
      · rw [Function.update_of_ne hgu] at hg
        exact (hpath g hg).to_reflTransGen
    have hstill : BlackDone edges (Function.update color u .grey) := by
      have hne : ∀ v, Function.update color u .grey v = .black ↔ color v = .black := by
        intro v
        by_cases hvu : v = u
        · rw [hvu, Function.update_self, hu]
          exact ⟨fun h => (by cases h), fun h => (by cases h)⟩
        · rw [Function.update_of_ne hvu]
      exact ⟨fun hv hedge => (hne _).mpr (hblack.closed ((hne _).mp hv) hedge),
        fun hv => hblack.acyclic ((hne _).mp hv)⟩
    have hscan : ∃ found, scan (visit edges fuel) (edges u) (Function.update color u .grey) = some found ∧
        Correct edges (edges u) (Function.update color u .grey) found := scan_correct
      (fun c => (whites vertices c).card ≤ fuel) (fun ha hab => le_trans (whites_le_of_extends hab) ha)
      (fun hb hv hwhite hdone hg => ih hb (hedges u hmem _ hv) hwhite hdone hg)
      (fun v hv => hv) (by omega) hstill hgrey
    obtain ⟨found, hfound, htrue, hfalse⟩ := hscan
    refine ⟨(found.1, if found.1 then found.2 else Function.update found.2 u .black), by rw [visit, hfound]; rfl, htrue,
      fun h => ?_⟩
    have h : found.1 = false := h
    obtain ⟨hextends, hdone, hall⟩ := hfalse h
    obtain ⟨hextends', hdone'⟩ := blackDone_update hu hextends hdone hall
    rw [h]
    refine ⟨hextends', hdone', fun v hv => ?_⟩
    rw [List.mem_singleton.mp hv]
    exact Function.update_self u _ found.2

/-- No vertex is grey between two visits, and so every visit starts a path of its own. -/
theorem search_correct (hedges : ∀ u ∈ vertices, ∀ v ∈ edges u, v ∈ vertices) {fuel : ℕ} {vs : List α}
    {color : α → Color} (hfuel : (whites vertices color).card ≤ fuel) (hvs : ∀ v ∈ vs, v ∈ vertices)
    (hblack : BlackDone edges color) (hgrey : ∀ v, color v ≠ .grey) :
    ∃ found, search edges fuel vs color = some found ∧ Correct edges vs color found := by
  induction vs generalizing color with
  | nil =>
    exact ⟨_, rfl, fun h => (by cases h), fun _ => ⟨.refl color, hblack, fun v hv => absurd hv List.not_mem_nil⟩⟩
  | cons v vs ih =>
    have hrest : ∀ v ∈ vs, v ∈ vertices := fun w hw => hvs w (List.mem_cons_of_mem _ hw)
    cases hv : color v with
    | grey => exact absurd hv (hgrey v)
    | black =>
      obtain ⟨found, hfound, hcorrect⟩ := ih hfuel hrest hblack hgrey
      exact ⟨found, by simp only [search, hv, hfound], hcorrect.black hv⟩
    | white =>
      obtain ⟨first, hfirst, hcorrect⟩ := visit_correct hedges hfuel (hvs v List.mem_cons_self) hv hblack
        fun g hg => absurd hg (hgrey g)
      cases hmet : first.1 with
      | true =>
        exact ⟨(true, first.2), by simp [search, hv, hfirst, hmet], fun _ => hcorrect.1 hmet, fun h => (by cases h)⟩
      | false =>
        obtain ⟨hextends, hdone, -⟩ := hcorrect.2 hmet
        have hfewer : (whites vertices first.2).card ≤ (whites vertices color).card := whites_le_of_extends hextends
        have hfuel' := le_trans hfewer hfuel
        have hgrey' : ∀ v, first.2 v ≠ .grey := fun w hw => hgrey w ((hextends.grey w).mp hw)
        obtain ⟨found, hfound, hbehind⟩ := ih hfuel' hrest hdone hgrey'
        exact ⟨found, by simp [search, hv, hfirst, hmet, hfound], hcorrect.cons hmet hbehind⟩

/-- A search of a whole graph from white ends, and finds whether the graph has a cycle. -/
theorem search_iff {vs : List α} {fuel : ℕ} (hedges : ∀ u v, Edge edges u v → u ∈ vs ∧ v ∈ vs)
    (hfuel : vs.length ≤ fuel) : ∃ found, search edges fuel vs (fun _ => .white) = some found ∧
      (found.1 = true ↔ Cyclic edges) := by
  have hcard : (whites vs.toFinset fun _ => Color.white).card ≤ fuel :=
    le_trans (Finset.card_filter_le _ _) (le_trans (List.toFinset_card_le vs) hfuel)
  have hsearch : ∃ found, search edges fuel vs (fun _ => .white) = some found ∧
      Correct edges vs (fun _ => .white) found := search_correct
    (fun u _ v hv => List.mem_toFinset.mpr (hedges u v hv).2) hcard (fun v hv => List.mem_toFinset.mpr hv)
    ⟨fun hu => (by cases hu), fun hu => (by cases hu)⟩ (fun v hv => (by cases hv))
  obtain ⟨found, hfound, htrue, hfalse⟩ := hsearch
  refine ⟨found, hfound, htrue, fun ⟨v, hcycle⟩ => ?_⟩
  by_contra hmet
  obtain ⟨-, hdone, hall⟩ := hfalse (Bool.eq_false_iff.mpr hmet)
  obtain ⟨w, hw, -⟩ := TransGen.head'_iff.mp hcycle
  exact hdone.acyclic (hall v (hedges v w hw).1) hcycle

end Search

end Galaxz.CycleSearch
