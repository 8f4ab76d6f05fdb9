import Galaxz.Lib.Table
import Galaxz.Orion.Curation
import Mathlib.Data.List.TakeWhile

/-!
# Each event becomes one example

In a steady run every event that a file or a buffer holds is marked or about to be marked by the run that
put it there, and no two runs have the same event ahead of them; so nothing is written twice, and what is
marked is held.
-/

namespace Galaxz

/-- The events that a run has ahead of it. -/
def CuratePhase.todo : CuratePhase → List String
  | .selected groups => groups.flatMap fun g => g.2.map (·.eventId)
  | .buffered _ _ groups => groups.flatMap fun g => g.2.map (·.eventId)
  | .marked _ groups => groups.flatMap fun g => g.2.map (·.eventId)
  | _ => []

/-- The events that a run has put into a buffer and is about to mark. -/
def CuratePhase.marking : CuratePhase → List String
  | .buffered ids _ _ => ids
  | _ => []

theorem CuratePhase.mem_unmarked {p : CuratePhase} {id : String} :
    id ∈ p.unmarked ↔ id ∈ p.marking ∨ id ∈ p.todo := by
  cases p with
  | buffered ids domain groups => exact List.mem_append
  | _ => simp [CuratePhase.unmarked, CuratePhase.marking, CuratePhase.todo]

namespace OrionService

variable {loads : String → Except PyError PyValue} {s t : CurationState}

/-- The events in the files and in the buffers. -/
def held (s : CurationState) : List String := s.files ++ bufferedIds s

/-! ## Buffers -/

theorem bufferedIds_append (domain : DatasetDomain) (xs : List DatasetExample) (s : CurationState) :
    (bufferedIds { s with buffer := Function.update s.buffer domain (s.buffer domain ++ xs) }).Perm
      (bufferedIds s ++ xs.filterMap (·.source)) := by
  unfold bufferedIds
  cases domain with
  | vega =>
    have hne : (DatasetDomain.rigel : DatasetDomain) ≠ .vega := by decide
    simp only [Function.update_self, Function.update_of_ne hne, List.filterMap_append]
    rw [List.append_assoc, List.append_assoc]
    exact List.Perm.append_left _ List.perm_append_comm
  | rigel =>
    have hne : (DatasetDomain.vega : DatasetDomain) ≠ .rigel := by decide
    simp only [Function.update_self, Function.update_of_ne hne, List.filterMap_append]
    rw [List.append_assoc]

/-- A flush moves events from a buffer to a file. -/
theorem held_flush (domain : DatasetDomain) (s : CurationState) : (held (flush domain s)).Perm (held s) := by
  unfold held flush bufferedIds
  simp only
  rw [List.append_assoc]
  refine List.Perm.append_left _ ?_
  cases domain with
  | vega =>
    have hne : (DatasetDomain.rigel : DatasetDomain) ≠ .vega := by decide
    simp only [Function.update_self, Function.update_of_ne hne, List.filterMap_append,
      List.nil_append]
    exact List.Perm.refl _
  | rigel =>
    have hne : (DatasetDomain.vega : DatasetDomain) ≠ .rigel := by decide
    simp only [Function.update_self, Function.update_of_ne hne, List.filterMap_append,
      List.append_nil]
    exact List.perm_append_comm

/-! ## The invariant -/

structure Inv (s : CurationState) : Prop where
  ids : (s.events.map (·.eventId)).Nodup
  once : (held s).Nodup
  todo_nodup : ∀ (i : ℕ) (p : CuratePhase), s.runs[i]? = some p → p.todo.Nodup
  todo_free : ∀ (i : ℕ) (p : CuratePhase), s.runs[i]? = some p → ∀ id ∈ p.todo, id ∉ held s
  apart : ∀ (i j : ℕ) (p q : CuratePhase), s.runs[i]? = some p → s.runs[j]? = some q → i ≠ j →
    ∀ id ∈ p.todo, id ∉ q.todo
  marking : ∀ p ∈ s.runs, ∀ id ∈ p.marking, id ∈ held s
  kept : ∀ id ∈ s.curated, id ∈ held s
  marked : ∀ id ∈ held s, id ∈ s.curated ∨ ∃ p ∈ s.runs, id ∈ p.marking

theorem Inv.exactlyOnce (h : Inv s) : ExactlyOnce s :=
  ⟨(List.nodup_append.mp h.once).1, fun id hid => List.mem_append.mp (h.kept id hid)⟩

theorem Inv.empty : Inv {} where
  ids := List.nodup_nil
  once := List.nodup_nil
  todo_nodup i p hp := by simp at hp
  todo_free i p hp := by simp at hp
  apart i j p q hp := by simp at hp
  marking _ hp := absurd hp List.not_mem_nil
  kept _ hid := absurd hid List.not_mem_nil
  marked _ hid := absurd hid List.not_mem_nil

/-- Moving events between files and buffers keeps the invariant. -/
theorem Inv.of_perm (h : Inv s) (hevents : t.events = s.events) (hruns : t.runs = s.runs)
    (hcurated : t.curated = s.curated) (hheld : (held t).Perm (held s)) : Inv t := by
  have hmem : ∀ {id : String}, id ∈ held t ↔ id ∈ held s := hheld.mem_iff
  refine ⟨?_, hheld.nodup_iff.mpr h.once, ?_, ?_, ?_, ?_, ?_, ?_⟩
  · rw [hevents]
    exact h.ids
  · rw [hruns]
    exact h.todo_nodup
  · intro i p hp id hid hheld
    rw [hruns] at hp
    exact h.todo_free i p hp id hid (hmem.mp hheld)
  · rw [hruns]
    exact h.apart
  · intro p hp id hid
    rw [hruns] at hp
    exact hmem.mpr (h.marking p hp id hid)
  · intro id hid
    rw [hcurated] at hid
    exact hmem.mpr (h.kept id hid)
  · intro id hid
    rw [hcurated, hruns]
    exact h.marked id (hmem.mp hid)

/-- The runs after one of them changed its phase. -/
theorem runs_modify {i k : ℕ} {q r : CuratePhase} (hr : (s.runs.modify i fun _ => q)[k]? = some r) :
    (k = i ∧ r = q) ∨ (k ≠ i ∧ s.runs[k]? = some r) := by
  rcases Table.getElem?_modify_some.mp hr with ⟨hk, -, -, hrq⟩ | hr
  · exact Or.inl ⟨hk, hrq⟩
  · exact Or.inr hr

/-- A step of a run: it puts `new` events from those ahead of it into a buffer, or marks those it has put
there. -/
theorem Inv.advanceRun (h : Inv s) {i : ℕ} {p q : CuratePhase} (hp : s.runs[i]? = some p)
    (hevents : t.events = s.events) (hruns : t.runs = s.runs.modify i fun _ => q)
    (new : List String) (hheld : (held t).Perm (held s ++ new)) (htodo : p.todo = new ++ q.todo)
    (hnew : ∀ id, id ∈ q.marking ↔ id ∈ new)
    (hcurated : ∀ id, id ∈ t.curated ↔ id ∈ s.curated ∨ id ∈ p.marking) : Inv t := by
  have hpmem : p ∈ s.runs := List.mem_of_getElem? hp
  have hmem : ∀ {id : String}, id ∈ held t ↔ id ∈ held s ∨ id ∈ new := by
    intro id
    rw [hheld.mem_iff, List.mem_append]
  have hnodup := h.todo_nodup i p hp
  rw [htodo, List.nodup_append] at hnodup
  have hq : ∀ id ∈ q.todo, id ∈ p.todo := by
    intro id hid
    rw [htodo]
    exact List.mem_append_right _ hid
  have hnewp : ∀ id ∈ new, id ∈ p.todo := by
    intro id hid
    rw [htodo]
    exact List.mem_append_left _ hid
  have hrun : ∀ {k : ℕ} {r : CuratePhase}, t.runs[k]? = some r →
      (k = i ∧ r = q) ∨ (k ≠ i ∧ s.runs[k]? = some r) := by
    intro k r hr
    rw [hruns] at hr
    exact runs_modify hr
  have hqmem : q ∈ t.runs := by
    rw [hruns]
    exact List.mem_of_getElem? (Table.getElem?_modify_some.mpr (Or.inl ⟨rfl, p, hp, rfl⟩))
  refine ⟨?_, ?_, ?_, ?_, ?_, ?_, ?_, ?_⟩
  · rw [hevents]
    exact h.ids
  · rw [hheld.nodup_iff, List.nodup_append]
    refine ⟨h.once, hnodup.1, fun a ha b hb hab => ?_⟩
    exact h.todo_free i p hp b (hnewp b hb) (hab ▸ ha)
  · intro k r hr
    rcases hrun hr with ⟨-, rfl⟩ | ⟨-, hr⟩
    · exact hnodup.2.1
    · exact h.todo_nodup k r hr
  · intro k r hr id hid hid'
    rcases hrun hr with ⟨-, rfl⟩ | ⟨hk, hr⟩
    · rcases hmem.mp hid' with hold | hnew'
      · exact h.todo_free i p hp id (hq id hid) hold
      · exact hnodup.2.2 id hnew' id hid rfl
    · rcases hmem.mp hid' with hold | hnew'
      · exact h.todo_free k r hr id hid hold
      · exact h.apart k i r p hr hp hk id hid (hnewp id hnew')
  · intro j k r r' hr hr' hjk id hid hid'
    rcases hrun hr with ⟨hj, rfl⟩ | ⟨hj, hr⟩
    · rcases hrun hr' with ⟨hk, -⟩ | ⟨hk, hr'⟩
      · exact hjk (hj.trans hk.symm)
      · exact h.apart i k p r' hp hr' (Ne.symm hk) id (hq id hid) hid'
    · rcases hrun hr' with ⟨-, rfl⟩ | ⟨-, hr'⟩
      · exact h.apart j i r p hr hp hj id hid (hq id hid')
      · exact h.apart j k r r' hr hr' hjk id hid hid'
  · intro r hr id hid
    obtain ⟨k, hk⟩ := List.mem_iff_getElem?.mp hr
    rcases hrun hk with ⟨-, rfl⟩ | ⟨-, hk⟩
    · exact hmem.mpr (Or.inr ((hnew id).mp hid))
    · exact hmem.mpr (Or.inl (h.marking r (List.mem_of_getElem? hk) id hid))
  · intro id hid
    rcases (hcurated id).mp hid with hid | hid
    · exact hmem.mpr (Or.inl (h.kept id hid))
    · exact hmem.mpr (Or.inl (h.marking p hpmem id hid))
  · intro id hid
    rw [hcurated]
    rcases hmem.mp hid with hid | hid
    · rcases h.marked id hid with hcur | ⟨r, hr, hmark⟩
      · exact Or.inl (Or.inl hcur)
      · obtain ⟨k, hk⟩ := List.mem_iff_getElem?.mp hr
        by_cases hki : k = i
        · rw [hki, hp] at hk
          cases hk
          exact Or.inl (Or.inr hmark)
        · refine Or.inr ⟨r, ?_, hmark⟩
          rw [hruns]
          exact List.mem_of_getElem? (Table.getElem?_modify_some.mpr (Or.inr ⟨hki, hk⟩))
    · exact Or.inr ⟨q, hqmem, (hnew id).mpr hid⟩

/-! ## Selections -/

theorem firstSeen_nodup (ds : List DatasetDomain) : (firstSeen ds).Nodup := by
  induction ds with
  | nil => exact List.nodup_nil
  | cons d ds ih =>
    unfold firstSeen
    rw [List.nodup_cons]
    refine ⟨fun h => ?_, ih.sublist List.filter_sublist⟩
    simpa using (List.mem_filter.mp h).2

/-- The groups hold events of the rows, and each of them once. -/
theorem byDomain_spec {rows : List CurateEvent} (h : (rows.map (·.eventId)).Nodup) :
    (CuratePhase.selected (byDomain rows)).todo.Nodup ∧
      ∀ id ∈ (CuratePhase.selected (byDomain rows)).todo, ∃ e ∈ rows, e.eventId = id := by
  unfold CuratePhase.todo byDomain
  simp only [List.flatMap_map]
  constructor
  · rw [List.nodup_flatMap]
    constructor
    · exact fun d _ => h.sublist (List.Sublist.map _ List.filter_sublist)
    · refine (firstSeen_nodup _).imp fun {d d'} hne => ?_
      intro id hid hid'
      obtain ⟨e, he, rfl⟩ := List.mem_map.mp hid
      obtain ⟨e', he', heq⟩ := List.mem_map.mp hid'
      obtain ⟨he, hd⟩ := List.mem_filter.mp he
      obtain ⟨he', hd'⟩ := List.mem_filter.mp he'
      have hsame : e' = e := List.inj_on_of_nodup_map h he' he heq
      rw [hsame] at hd'
      have hd : DatasetDomain.ofText e.domain = some d := by simpa using hd
      have hd' : DatasetDomain.ofText e.domain = some d' := by simpa using hd'
      exact hne (Option.some.inj (hd.symm.trans hd'))
  · intro id hid
    obtain ⟨d, -, hid⟩ := List.mem_flatMap.mp hid
    obtain ⟨e, he, rfl⟩ := List.mem_map.mp hid
    exact ⟨e, (List.mem_filter.mp he).1, rfl⟩

theorem uncuratedEvents_spec (s : CurationState) (h : (s.events.map (·.eventId)).Nodup) :
    ((uncuratedEvents s).map (·.eventId)).Nodup ∧ ∀ e ∈ uncuratedEvents s, e.eventId ∉ s.curated := by
  unfold uncuratedEvents
  constructor
  · have hperm := List.perm_insertionSort (fun a b : CurateEvent => a.createdAt ≤ b.createdAt)
      (s.events.filter fun e => e.wanted && !s.curated.contains e.eventId)
    rw [(hperm.map _).nodup_iff]
    exact h.sublist (List.Sublist.map _ List.filter_sublist)
  · intro e he hcurated
    have he := (List.mem_insertionSort _).mp he
    have hfilter := (List.mem_filter.mp he).2
    simp [hcurated] at hfilter

/-- A selection keeps the invariant if it takes nothing that another run has taken. -/
theorem Inv.select (h : Inv s) {i : ℕ} (hp : s.runs[i]? = some .ready)
    (hsteady : ∀ e ∈ uncuratedEvents s, ∀ run ∈ s.runs, e.eventId ∉ run.unmarked) :
    Inv (setPhase i (.selected (byDomain (uncuratedEvents s))) s) := by
  obtain ⟨hnodup, hfresh⟩ := uncuratedEvents_spec s h.ids
  obtain ⟨htodo, hsource⟩ := byDomain_spec hnodup
  set q := CuratePhase.selected (byDomain (uncuratedEvents s)) with hq
  have hfree : ∀ id ∈ q.todo, id ∉ held s := by
    intro id hid hheld
    obtain ⟨e, he, rfl⟩ := hsource id hid
    rcases h.marked _ hheld with hcurated | ⟨p, hp, hmark⟩
    · exact hfresh e he hcurated
    · exact hsteady e he p hp (CuratePhase.mem_unmarked.mpr (Or.inl hmark))
  have hother : ∀ id ∈ q.todo, ∀ p ∈ s.runs, id ∉ p.todo := by
    intro id hid p hp hidp
    obtain ⟨e, he, rfl⟩ := hsource id hid
    exact hsteady e he p hp (CuratePhase.mem_unmarked.mpr (Or.inr hidp))
  refine ⟨h.ids, h.once, ?_, ?_, ?_, ?_, h.kept, ?_⟩
  · intro k r hr
    rcases runs_modify hr with ⟨-, rfl⟩ | ⟨-, hr⟩
    · exact htodo
    · exact h.todo_nodup k r hr
  · intro k r hr id hid
    rcases runs_modify hr with ⟨-, rfl⟩ | ⟨-, hr⟩
    · exact hfree id hid
    · exact h.todo_free k r hr id hid
  · intro j k r r' hr hr' hjk id hid hid'
    rcases runs_modify hr with ⟨hj, rfl⟩ | ⟨-, hr⟩
    · rcases runs_modify hr' with ⟨hk, -⟩ | ⟨-, hr'⟩
      · exact hjk (hj.trans hk.symm)
      · exact hother id hid r' (List.mem_of_getElem? hr') hid'
    · rcases runs_modify hr' with ⟨-, rfl⟩ | ⟨-, hr'⟩
      · exact hother id hid' r (List.mem_of_getElem? hr) hid
      · exact h.apart j k r r' hr hr' hjk id hid hid'
  · intro r hr id hid
    obtain ⟨k, hk⟩ := List.mem_iff_getElem?.mp hr
    rcases runs_modify hk with ⟨-, rfl⟩ | ⟨-, hk⟩
    · cases hid
    · exact h.marking r (List.mem_of_getElem? hk) id hid
  · intro id hid
    rcases h.marked id hid with hcurated | ⟨r, hr, hmark⟩
    · exact Or.inl hcurated
    · obtain ⟨k, hk⟩ := List.mem_iff_getElem?.mp hr
      have hki : k ≠ i := by
        rintro rfl
        rw [hp] at hk
        cases hk
        cases hmark
      exact Or.inr ⟨r, List.mem_of_getElem? (Table.getElem?_modify_some.mpr (Or.inr ⟨hki, hk⟩)), hmark⟩

/-! ## One step -/

theorem Inv.append (h : Inv s) {i : ℕ} {domain : DatasetDomain} {rows : List CurateEvent}
    {groups : List (DatasetDomain × List CurateEvent)}
    (hp : s.runs[i]? = some (.selected ((domain, rows) :: groups)))
    (hread : ∀ e ∈ rows, e.readable loads = true) : Inv (appendRows loads i domain rows groups s) := by
  have htake : rows.takeWhile (·.readable loads) = rows := List.takeWhile_eq_self_iff.mpr hread
  have hall : rows.all (·.readable loads) = true := List.all_eq_true.mpr hread
  have hids : (rows.map (·.toExample)).filterMap (·.source) = rows.map (·.eventId) := by
    rw [List.filterMap_map]
    exact List.filterMap_eq_map (f := fun e : CurateEvent => e.eventId) ▸ rfl
  unfold appendRows
  simp only [htake, hall, if_true]
  refine h.advanceRun hp rfl rfl (rows.map (·.eventId)) ?_ rfl (fun id => Iff.rfl) ?_
  · have hperm := bufferedIds_append domain (rows.map (·.toExample)) s
    rw [hids] at hperm
    show (s.files ++ _).Perm ((s.files ++ bufferedIds s) ++ _)
    rw [List.append_assoc]
    exact List.Perm.append_left _ hperm
  · exact fun id => (or_iff_left List.not_mem_nil).symm

theorem Inv.mark (h : Inv s) {i : ℕ} {ids : List String} {domain : DatasetDomain}
    {groups : List (DatasetDomain × List CurateEvent)}
    (hp : s.runs[i]? = some (.buffered ids domain groups)) :
    Inv { setPhase i (.marked domain groups) s with
      curated := s.curated ++ ids.filter fun id => !s.curated.contains id } := by
  refine h.advanceRun hp rfl rfl [] ?_ rfl (fun id => Iff.rfl) fun id => ?_
  · rw [List.append_nil]
    exact List.Perm.refl _
  · show id ∈ s.curated ++ ids.filter _ ↔ id ∈ s.curated ∨ id ∈ ids
    rw [List.mem_append, List.mem_filter]
    by_cases hid : id ∈ s.curated
    · simp [hid]
    · simp [hid]

/-- A step that leaves the events, the files and the buffers alone. -/
theorem Inv.pass (h : Inv s) {i : ℕ} {p q : CuratePhase} (hp : s.runs[i]? = some p)
    (htodo : p.todo = q.todo) (hmark : p.marking = []) (hmark' : q.marking = []) :
    Inv (setPhase i q s) := by
  refine h.advanceRun hp rfl rfl [] ?_ htodo (fun id => ?_) fun id => ?_
  · rw [List.append_nil]
    exact List.Perm.refl _
  · rw [hmark']
  · rw [hmark]
    exact (or_iff_left List.not_mem_nil).symm

theorem Inv.flush (h : Inv s) (domain : DatasetDomain) : Inv (OrionService.flush domain s) :=
  h.of_perm rfl rfl rfl (held_flush domain s)

theorem Inv.advance (h : Inv s) (i : ℕ) (hsteady : CuratePhase.Steady loads s s.runs[i]?) :
    Inv (OrionService.advance loads i s) := by
  unfold OrionService.advance
  split
  · exact h
  · next hp =>
    rw [hp] at hsteady
    exact h.select hp hsteady
  · next hp => exact h.pass hp rfl rfl rfl
  · next domain rows groups hp =>
    rw [hp] at hsteady
    exact h.append hp hsteady
  · next hp => exact h.mark hp
  · next domain groups hp =>
    split_ifs
    · exact (h.flush domain).pass hp rfl rfl rfl
    · exact h.pass hp rfl rfl rfl
  · exact h
  · exact h

/-- A new event changes nothing else. -/
theorem Inv.arrive (h : Inv s) {event : CurateEvent} (hnew : ¬ s.events.any (·.eventId = event.eventId) = true) :
    Inv { s with events := s.events ++ [event] } := by
  refine ⟨?_, h.once, h.todo_nodup, h.todo_free, h.apart, h.marking, h.kept, h.marked⟩
  show ((s.events ++ [event]).map (·.eventId)).Nodup
  rw [List.map_append, List.nodup_append]
  refine ⟨h.ids, List.nodup_singleton _, fun a ha b hb hab => hnew ?_⟩
  obtain ⟨e, he, rfl⟩ := List.mem_map.mp ha
  rw [List.map_singleton, List.mem_singleton] at hb
  exact List.any_eq_true.mpr ⟨e, he, by simp [hab, hb]⟩

/-- A run that starts has nothing ahead of it yet. -/
theorem Inv.start (h : Inv s) : Inv { s with runs := s.runs ++ [.ready] } := by
  have hrun : ∀ {k : ℕ} {r : CuratePhase}, (s.runs ++ [.ready])[k]? = some r →
      s.runs[k]? = some r ∨ r = .ready := by
    intro k r hr
    rcases Table.getElem?_concat_some.mp hr with hr | ⟨-, hr⟩
    · exact Or.inl hr
    · exact Or.inr hr
  refine ⟨h.ids, h.once, ?_, ?_, ?_, ?_, h.kept, ?_⟩
  · intro k r hr
    rcases hrun hr with hr | rfl
    · exact h.todo_nodup k r hr
    · exact List.nodup_nil
  · intro k r hr id hid
    rcases hrun hr with hr | rfl
    · exact h.todo_free k r hr id hid
    · cases hid
  · intro j k r r' hr hr' hjk id hid hid'
    rcases hrun hr with hr | rfl
    · rcases hrun hr' with hr' | rfl
      · exact h.apart j k r r' hr hr' hjk id hid hid'
      · cases hid'
    · cases hid
  · intro r hr id hid
    rcases List.mem_append.mp hr with hr | hr
    · exact h.marking r hr id hid
    · cases List.mem_singleton.mp hr
      cases hid
  · intro id hid
    rcases h.marked id hid with hcurated | ⟨r, hr, hmark⟩
    · exact Or.inl hcurated
    · exact Or.inr ⟨r, List.mem_append_left _ hr, hmark⟩

/-- A stop between two curations loses nothing. -/
theorem Inv.restart (h : Inv s) (hlost : ∀ id ∈ bufferedIds s, id ∉ s.curated)
    (hfiles : ∀ id ∈ s.files, id ∈ s.curated) :
    Inv { s with buffer := fun _ => [], runs := [] } := by
  have hheld : held { s with buffer := fun _ => [], runs := [] } = s.files := List.append_nil _
  refine ⟨h.ids, ?_, ?_, ?_, ?_, ?_, ?_, ?_⟩
  · rw [hheld]
    exact (List.nodup_append.mp h.once).1
  · intro i p hp
    simp at hp
  · intro i p hp
    simp at hp
  · intro i j p q hp
    simp at hp
  · exact fun p hp => absurd hp List.not_mem_nil
  · intro id hid
    rw [hheld]
    rcases List.mem_append.mp (h.kept id hid) with hfile | hbuffer
    · exact hfile
    · exact absurd hid (hlost id hbuffer)
  · intro id hid
    rw [hheld] at hid
    exact Or.inl (hfiles id hid)

theorem Inv.step (h : Inv s) (action : CurationAction) (hsteady : action.Steady loads s) :
    Inv (OrionService.step loads action s) := by
  cases action with
  | arrive event =>
    show Inv (if s.events.any (·.eventId = event.eventId) then s else { s with events := s.events ++ [event] })
    split_ifs with hnew
    · exact h
    · exact h.arrive hnew
  | append domain humanVerified =>
    refine h.of_perm rfl rfl rfl ?_
    have hperm := bufferedIds_append domain [{ source := none, humanVerified }] s
    exact List.Perm.append_left _ (hperm.trans (by simp))
  | start => exact h.start
  | advance i => exact h.advance i hsteady
  | flush domain => exact h.flush domain
  | tornFlush domain count =>
    refine h.of_perm rfl rfl rfl ?_
    show ((s.files ++ ((s.buffer domain).take count).filterMap (·.source)) ++ bufferedIds s).Perm (held s)
    have hnone : ((s.buffer domain).take count).filterMap (·.source) = [] := hsteady
    rw [hnone, List.append_nil]
    exact List.Perm.refl _
  | restart => exact h.restart hsteady.1 hsteady.2

/-! ## Runs -/

/-- In every steady run each event is written at most once, and what is marked is in a file or a buffer. -/
theorem run_curatedOnce (loads : String → Except PyError PyValue) (actions : List CurationAction)
    (h : Machine.Along (step loads) (CurationAction.Steady loads) actions {}) :
    Machine.Along (step loads) (fun _ s => ExactlyOnce s) actions {} ∧
      ExactlyOnce (Machine.run (step loads) actions {}) := by
  have hstep : ∀ action s, Inv s → CurationAction.Steady loads action s → Inv (step loads action s) :=
    fun action s hs hsteady => hs.step action hsteady
  obtain ⟨halong, hend⟩ := Machine.Along.invariant hstep Inv.empty h
  exact ⟨halong.mono fun _ s hs => hs.exactlyOnce, hend.exactlyOnce⟩

/-- An event that a reviewer has verified. -/
def demoEvent : CurateEvent where
  eventId := "e1"
  domain := "rigel"
  outcome := "success"
  confidence := .finite (1 / 2)
  humanVerified := true
  createdAt := "2026-10-01 12:00:00"

/-- `json.loads`, which the event above does not need. -/
def noLoads (_ : String) : Except PyError PyValue := .error (.valueError "Expecting value")

/-- One run after the other, a flush, and a stop after it. -/
def steadyRun : List CurationAction :=
  [.arrive demoEvent, .start, .advance 0, .advance 0, .advance 0, .start, .advance 1, .advance 0,
    .advance 0, .flush .rigel, .restart]

theorem steadyRun_exactlyOnce :
    (Machine.run (step noLoads) steadyRun {}).files = ["e1"] ∧
      ExactlyOnce (Machine.run (step noLoads) steadyRun {}) :=
  ⟨by decide +kernel, (run_curatedOnce noLoads steadyRun (by decide +kernel)).2⟩

/-- Two runs select the event before either has marked it. -/
def twoRuns : List CurationAction :=
  [.arrive demoEvent, .start, .start, .advance 0, .advance 1, .advance 0, .advance 1, .advance 0, .advance 1,
    .flush .rigel]

/-- The service stops after the event is marked and before its buffer is flushed. -/
def stoppedRun : List CurationAction :=
  [.arrive demoEvent, .start, .advance 0, .advance 0, .advance 0, .restart]

theorem curation_not_exactlyOnce :
    ¬ ExactlyOnce (Machine.run (step noLoads) twoRuns {}) ∧
      ¬ ExactlyOnce (Machine.run (step noLoads) stoppedRun {}) := by
  have hfiles : (Machine.run (step noLoads) twoRuns {}).files = ["e1", "e1"] := by decide +kernel
  have hstopped : (Machine.run (step noLoads) stoppedRun {}).curated = ["e1"] ∧
      held (Machine.run (step noLoads) stoppedRun {}) = [] := by decide +kernel
  constructor
  · rintro ⟨hnodup, -⟩
    rw [hfiles] at hnodup
    exact absurd hnodup (by decide)
  · rintro ⟨-, hkept⟩
    have hmem := List.mem_append.mpr (hkept "e1" (by rw [hstopped.1]; exact List.mem_cons_self))
    have hnone : "e1" ∈ held (Machine.run (step noLoads) stoppedRun {}) := hmem
    rw [hstopped.2] at hnone
    cases hnone

end OrionService

end Galaxz
