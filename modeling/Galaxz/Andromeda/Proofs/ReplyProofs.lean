import Galaxz.Andromeda.Proofs.PlannerProofs

/-!
# Proofs: which replies the planner can read

A reply that cannot be used is refused with a `PlanValidationError`, but not every one of them: where the code walks
over a value before it looks at its shape, another exception escapes. The replies for which none does are
described here without the code, check by check.
-/

namespace Galaxz

/-- An exception other than a refused plan leaves the computation. -/
def Escapes {α : Type} (x : Except PyError α) : Prop := ∃ e, x = .error e ∧ ∀ msg, e ≠ .planValidationError msg

theorem not_escapes_ok {α : Type} (a : α) : ¬ Escapes (.ok a : Except PyError α) := by
  rintro ⟨e, he, -⟩
  cases he

theorem escapes_error {α : Type} {e : PyError} :
    Escapes (.error e : Except PyError α) ↔ ∀ msg, e ≠ .planValidationError msg := by
  constructor
  · rintro ⟨e', he, hne⟩
    rw [Except.error.inj he]
    exact hne
  · exact fun h => ⟨e, rfl, h⟩

/-- An exception escapes from a sequence of two computations when it escapes from one of them. -/
theorem escapes_bind {α β : Type} {x : Except PyError α} {f : α → Except PyError β} :
    Escapes (x.bind f) ↔ Escapes x ∨ ∃ a, x = .ok a ∧ Escapes (f a) := by
  cases x with
  | error e =>
    have hbind : (Except.error e : Except PyError α).bind f = .error e := rfl
    rw [hbind, escapes_error, escapes_error]
    constructor
    · exact Or.inl
    · rintro (h | ⟨a, ha, -⟩)
      · exact h
      · cases ha
  | ok a =>
    have hbind : (Except.ok a : Except PyError α).bind f = f a := rfl
    rw [hbind]
    constructor
    · exact fun h => Or.inr ⟨a, rfl, h⟩
    · rintro (h | ⟨b, hb, h⟩)
      · exact absurd h (not_escapes_ok a)
      · rw [Except.ok.inj hb]
        exact h

/-! ## Specs -/

section Specs

variable (text : PlannerText) (skills : List PlannerSkill)

/-- The value names the registered skill, or can only mean it. -/
def Names (value : PyValue) (skill : String) : Prop :=
  value.unhashable = false ∧ (skill ∈ knownSkills skills ∧ value = .str skill ∨
    (∀ known ∈ knownSkills skills, value ≠ .str known) ∧ skillMatches text skills value = [skill])

/-- The key is one of the payload. -/
def Present (payload : PyDict) (key : PyValue) : Prop := ∃ item ∈ payload, PyValue.str item.1 = key

/-- The payload has the keys that the skill requires. -/
def HasRequired (skill : String) (payload : PyDict) : Prop :=
  ∃ keys, (requiredOf skills skill).iterate = .ok keys ∧ ∀ key ∈ keys, Present payload key

/-- What the skill requires can be looked up in the payload, up to the first key that is missing. -/
def KeysRead (skill : String) (payload : PyDict) : Prop :=
  ∃ keys, (requiredOf skills skill).iterate = .ok keys ∧ ∀ before key after, keys = before ++ key :: after →
    (∀ k ∈ before, Present payload k) → key.unhashable = false

/-- The value is a list of indices of other tasks. -/
def IsIndexList (n i : ℕ) (value : PyValue) : Prop :=
  ∃ ds, value = .list ds ∧ ∀ d ∈ ds, ∃ k : ℤ, d.asInt = some k ∧ 0 ≤ k ∧ k < n ∧ k ≠ i

/-- The spec passes the checks. -/
def Accepted (n i : ℕ) (spec : TaskSpec) : Prop :=
  ∃ skill payload, Names text skills spec.skill skill ∧ spec.payload = .dict payload ∧
    HasRequired skills skill payload ∧ IsIndexList n i spec.dependsOn

/-- The checks can be made: the skill can be looked up, and so can what it requires. -/
def SpecReads (spec : TaskSpec) : Prop :=
  spec.skill.unhashable = false ∧ ∀ skill payload, Names text skills spec.skill skill → spec.payload = .dict payload →
    KeysRead skills skill payload

/-- The checks can be made up to the first spec that is refused. -/
def SpecsRead (specs : List TaskSpec) : Prop :=
  ∀ j spec, specs[j]? = some spec →
    (∀ k s, k < j → specs[k]? = some s → Accepted text skills specs.length k s) → SpecReads text skills spec

variable {text skills} {n i : ℕ}

theorem find?_known {value : PyValue} : ((knownSkills skills).find? fun known => PyValue.str known = value) = none ↔
    ∀ known ∈ knownSkills skills, value ≠ .str known := by
  rw [List.find?_eq_none]
  constructor
  · exact fun h known hknown e => h known hknown (decide_eq_true e.symm)
  · exact fun h known hknown e => h known hknown (of_decide_eq_true e).symm

theorem checkSkill_ok_iff {value : PyValue} {skill : String} :
    checkSkill text skills value = .ok skill ↔ Names text skills value skill := by
  unfold checkSkill Names
  by_cases hhash : value.unhashable = true
  · rw [if_pos hhash, hhash]
    simp
  · rw [if_neg hhash, Bool.eq_false_iff.mpr hhash]
    simp only [true_and]
    cases hfind : (knownSkills skills).find? fun known => PyValue.str known = value with
    | some known =>
      have hvalue : PyValue.str known = value :=
        of_decide_eq_true (List.find?_some (p := fun known => decide (PyValue.str known = value)) hfind)
      have hknown := List.mem_of_find?_eq_some hfind
      constructor
      · intro h
        rw [← Except.ok.inj h]
        exact Or.inl ⟨hknown, hvalue.symm⟩
      · rintro (⟨-, h⟩ | ⟨h, -⟩)
        · rw [h] at hvalue
          rw [PyValue.str.inj hvalue]
        · exact absurd hvalue.symm (h known hknown)
    | none =>
      have hunknown := find?_known.mp hfind
      constructor
      · intro h
        simp only at h
        split at h
        · next only hmatches =>
          rw [← Except.ok.inj h]
          exact Or.inr ⟨hunknown, hmatches⟩
        · cases h
      · rintro (⟨hmem, h⟩ | ⟨-, h⟩)
        · exact absurd h (hunknown skill hmem)
        · rw [h]

theorem checkSkill_escapes_iff {value : PyValue} :
    Escapes (checkSkill text skills value) ↔ value.unhashable = true := by
  unfold checkSkill
  by_cases hhash : value.unhashable = true
  · rw [if_pos hhash, escapes_error]
    exact ⟨fun _ => hhash, fun _ msg h => by cases h⟩
  · rw [if_neg hhash]
    refine ⟨fun h => ?_, fun h => absurd h hhash⟩
    obtain ⟨e, he, hne⟩ := h
    split at he
    · cases he
    · split at he
      · cases he
      · exact absurd (Except.error.inj he).symm (hne _)

theorem Present.hashable {payload : PyDict} {key : PyValue} (h : Present payload key) : key.unhashable = false := by
  obtain ⟨item, -, rfl⟩ := h
  rfl

theorem any_present {payload : PyDict} {key : PyValue} :
    (payload.any fun item => PyValue.str item.1 = key) = true ↔ Present payload key := by
  rw [List.any_eq_true]
  exact ⟨fun ⟨item, hitem, h⟩ => ⟨item, hitem, of_decide_eq_true h⟩, fun ⟨item, hitem, h⟩ => ⟨item, hitem, decide_eq_true h⟩⟩

theorem anyMissing_false_iff {payload : PyDict} {keys : List PyValue} :
    anyMissing payload keys = .ok false ↔ ∀ key ∈ keys, Present payload key := by
  refine ⟨anyMissing_false, fun h => ?_⟩
  induction keys with
  | nil => rfl
  | cons key keys ih =>
    have hkey := h key List.mem_cons_self
    rw [anyMissing, if_neg (Bool.eq_false_iff.mp hkey.hashable), if_pos (any_present.mpr hkey)]
    exact ih fun k hk => h k (List.mem_cons_of_mem _ hk)

theorem anyMissing_escapes_iff {payload : PyDict} {keys : List PyValue} :
    Escapes (anyMissing payload keys) ↔ ∃ before key after, keys = before ++ key :: after ∧
      (∀ k ∈ before, Present payload k) ∧ key.unhashable = true := by
  induction keys with
  | nil =>
    refine ⟨fun h => absurd h (not_escapes_ok false), ?_⟩
    rintro ⟨before, key, after, h, -⟩
    cases before with
    | nil => cases h
    | cons b bs => cases h
  | cons key keys ih =>
    rw [anyMissing]
    by_cases hhash : key.unhashable = true
    · rw [if_pos hhash, escapes_error]
      exact ⟨fun _ => ⟨[], key, keys, rfl, fun k hk => absurd hk List.not_mem_nil, hhash⟩, fun _ msg h => by cases h⟩
    · rw [if_neg hhash]
      by_cases hpresent : (payload.any fun item => PyValue.str item.1 = key) = true
      · rw [if_pos hpresent, ih]
        constructor
        · rintro ⟨before, k, after, rfl, hbefore, hk⟩
          refine ⟨key :: before, k, after, rfl, fun b hb => ?_, hk⟩
          rcases List.mem_cons.mp hb with rfl | hb
          · exact any_present.mp hpresent
          · exact hbefore b hb
        · rintro ⟨before, k, after, h, hbefore, hk⟩
          cases before with
          | nil =>
            obtain ⟨rfl, -⟩ := List.cons.inj h
            exact absurd hk hhash
          | cons b before =>
            obtain ⟨-, h⟩ := List.cons.inj h
            exact ⟨before, k, after, h, fun c hc => hbefore c (List.mem_cons_of_mem _ hc), hk⟩
      · rw [if_neg hpresent]
        refine ⟨fun h => absurd h (not_escapes_ok true), ?_⟩
        rintro ⟨before, k, after, h, hbefore, hk⟩
        cases before with
        | nil =>
          obtain ⟨rfl, -⟩ := List.cons.inj h
          exact absurd hk hhash
        | cons b before =>
          obtain ⟨rfl, -⟩ := List.cons.inj h
          exact absurd (any_present.mpr (hbefore key List.mem_cons_self)) hpresent

theorem iterate_error {value : PyValue} {e : PyError} (h : value.iterate = .error e) : ∃ msg, e = .typeError msg := by
  unfold PyValue.iterate at h
  split at h <;> cases h
  exact ⟨_, rfl⟩

theorem checkPayload_ok_iff {skill : String} {value : PyValue} {payload : PyDict} :
    checkPayload text skills i skill value = .ok payload ↔ value = .dict payload ∧ HasRequired skills skill payload := by
  constructor
  · intro h
    obtain ⟨hvalue, keys, hkeys, hmissing⟩ := checkPayload_ok h
    exact ⟨hvalue, keys, hkeys, anyMissing_false hmissing⟩
  · rintro ⟨rfl, keys, hkeys, hpresent⟩
    unfold checkPayload
    simp only [hkeys, bind, Except.bind, anyMissing_false_iff.mpr hpresent, Bool.false_eq_true, if_false]

theorem checkPayload_escapes_iff {skill : String} {value : PyValue} :
    Escapes (checkPayload text skills i skill value) ↔ ∃ payload, value = .dict payload ∧ ¬ KeysRead skills skill payload := by
  cases value with
  | dict payload =>
    have hiff : Escapes (checkPayload text skills i skill (.dict payload)) ↔ ¬ KeysRead skills skill payload := by
      unfold checkPayload
      refine (escapes_bind (f := fun keys => (anyMissing payload keys).bind fun missing => if missing = true then
        .error (.planValidationError s!"task {i} payload for {skill} requires {text.str (requiredOf skills skill)}")
        else .ok payload)).trans ?_
      cases hkeys : (requiredOf skills skill).iterate with
      | error e =>
        obtain ⟨msg, rfl⟩ := iterate_error hkeys
        refine ⟨fun _ ⟨keys, h, _⟩ => ?_, fun _ => Or.inl (escapes_error.mpr fun msg h => by cases h)⟩
        rw [hkeys] at h
        cases h
      | ok keys =>
        have hrest : ∀ missing : Bool, ¬ Escapes (if missing = true then .error (.planValidationError
            s!"task {i} payload for {skill} requires {text.str (requiredOf skills skill)}") else .ok payload) := by
          intro missing
          cases missing with
          | true => exact fun h => escapes_error.mp h _ rfl
          | false => exact not_escapes_ok payload
        rw [or_iff_right (not_escapes_ok keys)]
        constructor
        · rintro ⟨keys', hkeys', h⟩ ⟨keys'', hkeys'', hread⟩
          obtain rfl := Except.ok.inj hkeys'
          rw [hkeys] at hkeys''
          obtain rfl := Except.ok.inj hkeys''
          rcases escapes_bind.mp h with h | ⟨missing, -, h⟩
          · obtain ⟨before, key, after, hsplit, hbefore, hkey⟩ := anyMissing_escapes_iff.mp h
            rw [hread before key after hsplit hbefore] at hkey
            cases hkey
          · exact hrest missing h
        · intro hread
          refine ⟨keys, rfl, escapes_bind.mpr (Or.inl (anyMissing_escapes_iff.mpr ?_))⟩
          by_contra hno
          refine hread ⟨keys, hkeys, fun before key after hsplit hbefore => ?_⟩
          by_contra hkey
          exact hno ⟨before, key, after, hsplit, hbefore, Bool.eq_true_of_not_eq_false hkey⟩
    rw [hiff]
    exact ⟨fun h => ⟨payload, rfl, h⟩, fun ⟨p, hp, h⟩ => PyValue.dict.inj hp ▸ h⟩
  | _ =>
    refine ⟨fun h => absurd rfl (escapes_error.mp h _), ?_⟩
    rintro ⟨payload, h, -⟩
    cases h

theorem checkIndex_isSome_iff {d : PyValue} :
    (∃ k, checkIndex n i d = some k) ↔ ∃ k : ℤ, d.asInt = some k ∧ 0 ≤ k ∧ k < n ∧ k ≠ i := by
  constructor
  · rintro ⟨k, h⟩
    obtain ⟨hd, hlt, hne⟩ := checkIndex_some h
    exact ⟨k, hd, by omega, by omega, fun e => hne (by omega)⟩
  · rintro ⟨k, hd, hnonneg, hlt, hne⟩
    refine ⟨k.toNat, ?_⟩
    unfold checkIndex
    rw [hd]
    have hrange : ¬ (k < 0 ∨ (n : ℤ) ≤ k ∨ k = i) := by omega
    simp only [if_neg hrange]

theorem checkDepends_ok_iff {value : PyValue} :
    (∃ deps, checkDepends text n i value = .ok deps) ↔ IsIndexList n i value := by
  constructor
  · rintro ⟨deps, h⟩
    obtain ⟨ds, hvalue, hds⟩ := checkDepends_ok h
    refine ⟨ds, hvalue, fun d hd => checkIndex_isSome_iff.mp ?_⟩
    obtain ⟨k, -, hk⟩ := mem_left_of_forall₂ ((option_mapM_some_iff _ _ _).mp hds) hd
    exact ⟨k, hk⟩
  · rintro ⟨ds, rfl, hds⟩
    have hall : ∃ deps, ds.mapM (checkIndex n i) = some deps := by
      induction ds with
      | nil => exact ⟨[], rfl⟩
      | cons d ds ih =>
        obtain ⟨k, hk⟩ := checkIndex_isSome_iff.mpr (hds d List.mem_cons_self)
        obtain ⟨ks, hks⟩ := ih fun e he => hds e (List.mem_cons_of_mem _ he)
        exact ⟨k :: ks, by rw [List.mapM_cons, hk, hks]; rfl⟩
    obtain ⟨deps, hdeps⟩ := hall
    exact ⟨deps, by simp only [checkDepends, hdeps]⟩

theorem checkDepends_not_escapes {value : PyValue} : ¬ Escapes (checkDepends text n i value) := by
  rintro ⟨e, he, hne⟩
  unfold checkDepends at he
  split at he
  · split at he
    · cases he
    · exact hne _ (Except.error.inj he).symm
  · exact hne _ (Except.error.inj he).symm

theorem checkSpec_ok_iff {spec : TaskSpec} :
    (∃ checked, checkSpec text skills n i spec = .ok checked) ↔ Accepted text skills n i spec := by
  unfold checkSpec Accepted
  constructor
  · rintro ⟨checked, h⟩
    obtain ⟨skill, hskill, h⟩ := (except_bind_ok_iff _ _ _).mp h
    obtain ⟨payload, hpayload, h⟩ := (except_bind_ok_iff _ _ _).mp h
    obtain ⟨deps, hdeps, -⟩ := (except_bind_ok_iff _ _ _).mp h
    obtain ⟨hvalue, hrequired⟩ := checkPayload_ok_iff.mp hpayload
    exact ⟨skill, payload, checkSkill_ok_iff.mp hskill, hvalue, hrequired, checkDepends_ok_iff.mp ⟨deps, hdeps⟩⟩
  · rintro ⟨skill, payload, hskill, hvalue, hrequired, hdeps⟩
    have hchecked : ∃ deps, checkDepends text n i spec.dependsOn = .ok deps := checkDepends_ok_iff.mpr hdeps
    obtain ⟨deps, hdeps⟩ := hchecked
    refine ⟨⟨spec.projectId, skill, payload, deps⟩, (except_bind_ok_iff _ _ _).mpr
      ⟨skill, checkSkill_ok_iff.mpr hskill, ?_⟩⟩
    refine (except_bind_ok_iff _ _ _).mpr ⟨payload, checkPayload_ok_iff.mpr ⟨hvalue, hrequired⟩, ?_⟩
    exact (except_bind_ok_iff _ _ _).mpr ⟨deps, hdeps, rfl⟩

theorem checkSpec_escapes_iff {spec : TaskSpec} :
    Escapes (checkSpec text skills n i spec) ↔ ¬ SpecReads text skills spec := by
  have hstep : Escapes (checkSpec text skills n i spec) ↔ spec.skill.unhashable = true ∨
      ∃ skill, Names text skills spec.skill skill ∧ ∃ payload, spec.payload = .dict payload ∧
        ¬ KeysRead skills skill payload := by
    unfold checkSpec
    refine escapes_bind.trans (or_congr checkSkill_escapes_iff (exists_congr fun skill => ?_))
    refine and_congr checkSkill_ok_iff (escapes_bind.trans ?_)
    have hpayload : Escapes (checkPayload text skills i skill spec.payload) ↔ _ := checkPayload_escapes_iff
    rw [← hpayload]
    refine or_iff_left ?_
    rintro ⟨payload, -, h⟩
    rcases escapes_bind.mp h with h | ⟨deps, -, h⟩
    · exact checkDepends_not_escapes h
    · exact not_escapes_ok _ h
  rw [hstep]
  unfold SpecReads
  constructor
  · rintro (hhash | ⟨skill, hskill, payload, hpayload, hread⟩) ⟨hhash', hall⟩
    · rw [hhash] at hhash'
      cases hhash'
    · exact hread (hall skill payload hskill hpayload)
  · intro h
    by_cases hhash : spec.skill.unhashable = true
    · exact Or.inl hhash
    · by_contra hno
      refine h ⟨Bool.eq_false_iff.mpr hhash, fun skill payload hskill hpayload => ?_⟩
      by_contra hread
      exact hno (Or.inr ⟨skill, hskill, payload, hpayload, hread⟩)

/-- An exception escapes from the checks at the first spec whose check cannot be made, when all specs before it pass.
By induction on the specs, each of which is checked at its own index. -/
theorem checkSpecs_escapes_iff {specs : List TaskSpec} :
    Escapes (checkSpecs text skills n i specs) ↔ ∃ j spec, specs[j]? = some spec ∧
      (∀ k s, k < j → specs[k]? = some s → Accepted text skills n (i + k) s) ∧ ¬ SpecReads text skills spec := by
  induction specs generalizing i with
  | nil =>
    refine ⟨fun h => absurd h (not_escapes_ok []), ?_⟩
    rintro ⟨j, spec, h, -⟩
    cases h
  | cons spec specs ih =>
    rw [checkSpecs]
    constructor
    · intro h
      rcases escapes_bind.mp h with h | ⟨checked, hchecked, h⟩
      · exact ⟨0, spec, rfl, fun k s hk => absurd hk (Nat.not_lt_zero k), checkSpec_escapes_iff.mp h⟩
      · rcases escapes_bind.mp h with h | ⟨rest, -, h⟩
        · obtain ⟨j, s, hs, hbefore, hread⟩ := ih.mp h
          refine ⟨j + 1, s, hs, fun k t hk ht => ?_, hread⟩
          cases k with
          | zero =>
            obtain rfl : spec = t := Option.some.inj ht
            exact checkSpec_ok_iff.mp ⟨checked, hchecked⟩
          | succ k =>
            rw [show i + (k + 1) = i + 1 + k by omega]
            exact hbefore k t (by omega) ht
        · exact absurd h (not_escapes_ok _)
    · rintro ⟨j, s, hs, hbefore, hread⟩
      cases j with
      | zero =>
        obtain rfl : spec = s := Option.some.inj hs
        exact escapes_bind.mpr (Or.inl (checkSpec_escapes_iff.mpr hread))
      | succ j =>
        obtain ⟨checked, hchecked⟩ := checkSpec_ok_iff.mpr (hbefore 0 spec (Nat.succ_pos j) rfl)
        refine escapes_bind.mpr (Or.inr ⟨checked, hchecked, escapes_bind.mpr (Or.inl (ih.mpr ?_))⟩)
        refine ⟨j, s, hs, fun k t hk ht => ?_, hread⟩
        have haccepted := hbefore (k + 1) t (by omega) ht
        rw [show i + (k + 1) = i + 1 + k by omega] at haccepted
        exact haccepted

theorem checkSpecs_escapes {specs : List TaskSpec} :
    Escapes (checkSpecs text skills specs.length 0 specs) ↔ ¬ SpecsRead text skills specs := by
  rw [checkSpecs_escapes_iff]
  unfold SpecsRead
  constructor
  · rintro ⟨j, spec, hspec, hbefore, hread⟩ hall
    refine hread (hall j spec hspec fun k s hk hs => ?_)
    have haccepted := hbefore k s hk hs
    rw [Nat.zero_add] at haccepted
    exact haccepted
  · intro h
    by_contra hno
    refine h fun j spec hspec hbefore => ?_
    by_contra hread
    refine hno ⟨j, spec, hspec, fun k s hk hs => ?_, hread⟩
    rw [Nat.zero_add]
    exact hbefore k s hk hs

end Specs

/-! ## Projects -/

section Projects

variable (text : PlannerText)

/-- The value can be walked as a list of tasks: a list of objects, or nothing to walk. -/
def TasksRead : PyValue → Prop
  | .list rts => ∀ rt ∈ rts, ∃ items, rt = .dict items
  | .dict items => items = []
  | .str s => s = ""
  | _ => False

/-- The project can be read: it is an object with a title, and its tasks can be walked. -/
def ProjectReads (rp : PyValue) : Prop :=
  ∃ items, rp = .dict items ∧ text.isUnicode (titleOf text items) = true ∧
    text.isUnicode (descriptionOf text items) = true ∧ strip (titleOf text items) ≠ "" ∧
    TasksRead (PyDict.getOr items "tasks" (.list []))

/-- The spec of a task of the reply. -/
def specOf (projectId : Uuid) (rt : PyDict) : TaskSpec where
  projectId := projectId
  skill := PyDict.get rt "skill"
  payload := (PyDict.get rt "payload").orElse (.dict [])
  dependsOn := (PyDict.get rt "depends_on").orElse (.list [])

/-- The object that the value is. -/
def objectOf : PyValue → Option PyDict
  | .dict items => some items
  | _ => none

/-- The tasks of a project of the reply. -/
def tasksOf : PyValue → List PyDict
  | .dict items => match PyDict.getOr items "tasks" (.list []) with
    | .list rts => rts.filterMap objectOf
    | _ => []
  | _ => []

/-- The specs of all tasks of the reply, project by project. -/
def specsOf (ids : ℕ → Uuid) : ℕ → List PyValue → List TaskSpec
  | _, [] => []
  | k, rp :: rps => (tasksOf rp).map (specOf (ids k)) ++ specsOf ids (k + 1) rps

variable {text}

theorem asDict_error {value : PyValue} {e : PyError} (h : value.asDict = .error e) : ∃ msg, e = .attributeError msg := by
  unfold PyValue.asDict at h
  split at h <;> cases h
  exact ⟨_, rfl⟩

theorem asDict_ok {value : PyValue} {items : PyDict} (h : value.asDict = .ok items) : value = .dict items := by
  unfold PyValue.asDict at h
  split at h
  · rw [Except.ok.inj h]
  · cases h

theorem validate_eq (isUnicode : String → Bool) (projectId goalId : Uuid) (title description : String) :
    (isUnicode title = true ∧ isUnicode description = true ∧ strip title ≠ "" ∧
      ProjectNode.validate isUnicode projectId goalId title description =
        .ok { projectId, goalId, title := strip title, description }) ∨
    (¬ (isUnicode title = true ∧ isUnicode description = true ∧ strip title ≠ "") ∧
      Escapes (ProjectNode.validate isUnicode projectId goalId title description)) := by
  unfold ProjectNode.validate
  by_cases hunicode : isUnicode title = false ∨ isUnicode description = false
  · refine Or.inr ⟨?_, ?_⟩
    · rintro ⟨htitle, hdescription, -⟩
      rw [htitle, hdescription] at hunicode
      rcases hunicode with h | h <;> cases h
    · rw [if_pos hunicode, escapes_error]
      exact fun msg h => by cases h
  · rw [if_neg hunicode]
    by_cases hblank : strip title = ""
    · refine Or.inr ⟨fun h => h.2.2 hblank, ?_⟩
      rw [if_pos hblank, escapes_error]
      exact fun msg h => by cases h
    · rw [if_neg hblank]
      push Not at hunicode
      exact Or.inl ⟨Bool.eq_true_of_not_eq_false hunicode.1, Bool.eq_true_of_not_eq_false hunicode.2, hblank, rfl⟩

/-- Tasks that are objects are read one by one. -/
theorem readTasks_ok {projectId : Uuid} {rts : List PyValue} (h : ∀ rt ∈ rts, ∃ items, rt = .dict items) :
    rts.mapM (readTask projectId) = .ok ((rts.filterMap objectOf).map (specOf projectId)) := by
  induction rts with
  | nil => rfl
  | cons rt rts ih =>
    obtain ⟨items, rfl⟩ := h rt List.mem_cons_self
    rw [List.mapM_cons, ih fun t ht => h t (List.mem_cons_of_mem _ ht)]
    rfl

theorem readTasks_escapes {projectId : Uuid} {rts : List PyValue} (h : ¬ ∀ rt ∈ rts, ∃ items, rt = .dict items) :
    Escapes (rts.mapM (readTask projectId)) := by
  induction rts with
  | nil => exact absurd (fun rt hrt => absurd hrt List.not_mem_nil) h
  | cons rt rts ih =>
    rw [List.mapM_cons]
    refine escapes_bind.mpr ?_
    cases hrt : rt.asDict with
    | error e =>
      obtain ⟨msg, rfl⟩ := asDict_error hrt
      refine Or.inl ⟨.attributeError msg, ?_, fun msg' h => by cases h⟩
      unfold readTask
      rw [hrt]
      rfl
    | ok items =>
      obtain rfl := asDict_ok hrt
      refine Or.inr ⟨specOf projectId items, rfl, escapes_bind.mpr (Or.inl (ih fun hall => h fun t ht => ?_))⟩
      rcases List.mem_cons.mp ht with rfl | ht
      · exact ⟨items, rfl⟩
      · exact hall t ht

/-- The tasks of a project are read when they can be walked. -/
theorem readTasks_cases (projectId : Uuid) (items : PyDict) :
    (TasksRead (PyDict.getOr items "tasks" (.list [])) ∧
      (PyDict.getOr items "tasks" (.list [])).iterate.bind (fun rts => rts.mapM (readTask projectId)) =
        .ok ((tasksOf (.dict items)).map (specOf projectId))) ∨
    (¬ TasksRead (PyDict.getOr items "tasks" (.list [])) ∧
      Escapes ((PyDict.getOr items "tasks" (.list [])).iterate.bind fun rts => rts.mapM (readTask projectId))) := by
  simp only [tasksOf]
  cases htasks : PyDict.getOr items "tasks" (.list []) with
  | list rts =>
    by_cases hall : ∀ rt ∈ rts, ∃ items, rt = .dict items
    · exact Or.inl ⟨hall, readTasks_ok hall⟩
    · exact Or.inr ⟨hall, readTasks_escapes hall⟩
  | dict keys =>
    cases keys with
    | nil => exact Or.inl ⟨rfl, rfl⟩
    | cons key keys =>
      refine Or.inr ⟨fun h => (by cases h), readTasks_escapes fun hall => ?_⟩
      obtain ⟨items, h⟩ := hall (.str key.1) List.mem_cons_self
      cases h
  | str s =>
    by_cases hs : s = ""
    · subst hs
      exact Or.inl ⟨rfl, rfl⟩
    · refine Or.inr ⟨hs, readTasks_escapes fun hall => ?_⟩
      obtain ⟨c, cs, hcs⟩ := List.exists_cons_of_ne_nil fun h => hs (String.toList_eq_nil_iff.mp h)
      obtain ⟨items, h⟩ := hall (.str (String.singleton c)) (by rw [hcs]; exact List.mem_cons_self)
      cases h
  | _ => exact Or.inr ⟨fun h => h, escapes_bind.mpr (Or.inl (escapes_error.mpr fun msg h => by cases h))⟩

theorem readProject_cases (goalId projectId : Uuid) (rp : PyValue) :
    (ProjectReads text rp ∧ ∃ project, readProject text goalId projectId rp =
      .ok (project, (tasksOf rp).map (specOf projectId))) ∨
    (¬ ProjectReads text rp ∧ Escapes (readProject text goalId projectId rp)) := by
  cases hobject : rp.asDict with
  | error e =>
    obtain ⟨msg, rfl⟩ := asDict_error hobject
    refine Or.inr ⟨?_, .attributeError msg, ?_, fun msg' h => (by cases h)⟩
    · rintro ⟨items, rfl, -⟩
      cases hobject
    · unfold readProject
      rw [hobject]
      rfl
  | ok items =>
    obtain rfl := asDict_ok hobject
    have hread : readProject text goalId projectId (.dict items) =
        (ProjectNode.validate text.isUnicode projectId goalId (titleOf text items) (descriptionOf text items)).bind
          fun project => (PyDict.getOr items "tasks" (.list [])).iterate.bind fun rts =>
            (rts.mapM (readTask projectId)).bind fun specs => .ok (project, specs) := rfl
    rw [hread]
    rcases validate_eq text.isUnicode projectId goalId (titleOf text items) (descriptionOf text items) with
      ⟨htitle, hdescription, hblank, hvalid⟩ | ⟨hinvalid, hescapes⟩
    · rcases readTasks_cases projectId items with ⟨htasks, hok⟩ | ⟨htasks, hescapes⟩
      · obtain ⟨rts, hrts, hspecs⟩ := (except_bind_ok_iff _ _ _).mp hok
        refine Or.inl ⟨⟨items, rfl, htitle, hdescription, hblank, htasks⟩,
          ⟨projectId, goalId, strip (titleOf text items), descriptionOf text items⟩, ?_⟩
        rw [hvalid, hrts]
        exact (except_bind_ok_iff _ _ _).mpr ⟨_, rfl, (except_bind_ok_iff _ _ _).mpr ⟨rts, rfl,
          (except_bind_ok_iff _ _ _).mpr ⟨_, hspecs, rfl⟩⟩⟩
      · refine Or.inr ⟨?_, escapes_bind.mpr (Or.inr ⟨_, hvalid, ?_⟩)⟩
        · rintro ⟨items', h, -, -, -, hread⟩
          rw [← PyValue.dict.inj h] at hread
          exact htasks hread
        · rcases escapes_bind.mp hescapes with h | ⟨rts, hrts, h⟩
          · exact escapes_bind.mpr (Or.inl h)
          · exact escapes_bind.mpr (Or.inr ⟨rts, hrts, escapes_bind.mpr (Or.inl h)⟩)
    · refine Or.inr ⟨?_, escapes_bind.mpr (Or.inl hescapes)⟩
      rintro ⟨items', h, htitle, hdescription, hblank, -⟩
      rw [← PyValue.dict.inj h] at htitle hdescription hblank
      exact hinvalid ⟨htitle, hdescription, hblank⟩

variable (text) in
/-- The projects are read when every one of them can be. -/
theorem readProjects_cases (goalId : Uuid) (ids : ℕ → Uuid) (k : ℕ) (rps : List PyValue) :
    ((∀ rp ∈ rps, ProjectReads text rp) ∧ ∃ read, readProjects text goalId ids k rps = .ok read ∧
      read.flatMap (·.2) = specsOf ids k rps) ∨
    ((¬ ∀ rp ∈ rps, ProjectReads text rp) ∧ Escapes (readProjects text goalId ids k rps)) := by
  induction rps generalizing k with
  | nil => exact Or.inl ⟨fun rp hrp => absurd hrp List.not_mem_nil, [], rfl, rfl⟩
  | cons rp rps ih =>
    rw [readProjects]
    rcases readProject_cases goalId (ids k) rp with ⟨hrp, project, hproject⟩ | ⟨hrp, hescapes⟩
    · rcases ih (k + 1) with ⟨hall, read, hread, hspecs⟩ | ⟨hall, hescapes⟩
      · refine Or.inl ⟨fun p hp => ?_, _, (except_bind_ok_iff _ _ _).mpr ⟨_, hproject,
          (except_bind_ok_iff _ _ _).mpr ⟨read, hread, rfl⟩⟩, ?_⟩
        · rcases List.mem_cons.mp hp with rfl | hp
          · exact hrp
          · exact hall p hp
        · rw [List.flatMap_cons, hspecs]
          rfl
      · exact Or.inr ⟨fun h => hall fun p hp => h p (List.mem_cons_of_mem _ hp),
          escapes_bind.mpr (Or.inr ⟨_, hproject, escapes_bind.mpr (Or.inl hescapes)⟩)⟩
    · exact Or.inr ⟨fun h => hrp (h rp List.mem_cons_self), escapes_bind.mpr (Or.inl hescapes)⟩

end Projects

/-! ## The confidence -/

section Confidence

variable {text : PlannerText}

/-- The value is no integer that is too large for a float. -/
def ConfidenceReads (value : PyValue) : Prop :=
  ∀ n : ℤ, value = .int n → |PyFloat.toDouble n| < PyFloat.overflowBound

/-- The value is the finite number. -/
def Stated (value : PyValue) (q : ℚ) : Prop := value = .float (.finite q) ∨ ∃ n : ℤ, value = .int n ∧ q = n

theorem planConfidence_escapes_iff {value : PyValue} :
    Escapes (planConfidence text value) ↔ ¬ ConfidenceReads value := by
  unfold planConfidence ConfidenceReads
  cases value with
  | int n =>
    simp only [floatOf, PyFloat.ofInt]
    by_cases hlarge : PyFloat.overflowBound ≤ |PyFloat.toDouble n|
    · simp only [if_pos hlarge, escapes_error]
      exact ⟨fun _ h => absurd (h n rfl) (not_lt.mpr hlarge), fun _ msg h => by cases h⟩
    · simp only [if_neg hlarge]
      refine ⟨fun h => absurd h (not_escapes_ok _), fun h => absurd (fun m hm => ?_) h⟩
      rw [← PyValue.int.inj hm]
      exact not_le.mp hlarge
  | str s =>
    simp only [floatOf]
    cases text.float s with
    | none => exact ⟨fun h => absurd h (not_escapes_ok _), fun h => absurd (fun m hm => by cases hm) h⟩
    | some x => exact ⟨fun h => absurd h (not_escapes_ok _), fun h => absurd (fun m hm => by cases hm) h⟩
  | _ => exact ⟨fun h => absurd h (not_escapes_ok _), fun h => absurd (fun m hm => by cases hm) h⟩

namespace PyFloat

/-- Rounding keeps the sign. -/
theorem toDouble_nonpos {q : ℚ} (h : q ≤ 0) : toDouble q ≤ 0 := by
  unfold toDouble
  simp only
  have hpow : (0 : ℚ) < 2 ^ max (Int.log 2 |q| - 52) (-1074) := zpow_pos two_pos _
  have hround : roundHalfEven (q / 2 ^ max (Int.log 2 |q| - 52) (-1074)) ≤ 0 := by
    have hle := roundHalfEven_mono (div_nonpos_of_nonpos_of_nonneg h hpow.le)
    rw [← Int.cast_zero, roundHalfEven_intCast] at hle
    exact hle
  exact mul_nonpos_of_nonpos_of_nonneg (by exact_mod_cast hround) hpow.le

/-- Rounding does not go below one: at the scale it rounds to, one is a whole number. -/
theorem one_le_toDouble {q : ℚ} (h : 1 ≤ q) : 1 ≤ toDouble q := by
  unfold toDouble
  simp only
  set e := max (Int.log 2 |q| - 52) (-1074) with he
  have hpow : (0 : ℚ) < 2 ^ e := zpow_pos two_pos _
  by_cases hsign : e ≤ 0
  · have hone : ((2 ^ (-e).toNat : ℤ) : ℚ) = 1 / 2 ^ e := by
      have hneg : ((-e).toNat : ℤ) = -e := Int.toNat_of_nonneg (by omega)
      rw [Int.cast_pow, Int.cast_ofNat, ← zpow_natCast, hneg, zpow_neg, one_div]
    have hle : ((2 ^ (-e).toNat : ℤ) : ℚ) ≤ q / 2 ^ e := by
      rw [hone]
      exact div_le_div_of_nonneg_right h hpow.le
    have hround := roundHalfEven_mono hle
    rw [roundHalfEven_intCast] at hround
    have hcast : ((2 ^ (-e).toNat : ℤ) : ℚ) ≤ (roundHalfEven (q / 2 ^ e) : ℚ) := by exact_mod_cast hround
    rw [hone, div_le_iff₀ hpow] at hcast
    exact hcast
  · have hlog : e = Int.log 2 |q| - 52 := by
      rw [he]
      exact max_eq_left (by omega)
    have hq : |q| = q := abs_of_nonneg (le_trans zero_le_one h)
    have hge : (2 : ℚ) ^ e ≤ q := by
      have hlogle : ((2 : ℕ) : ℚ) ^ Int.log 2 q ≤ q := Int.zpow_log_le_self (by norm_num) (lt_of_lt_of_le one_pos h)
      rw [hlog, hq]
      refine le_trans (zpow_le_zpow_right₀ one_le_two ?_) (by exact_mod_cast hlogle)
      omega
    have hround : (1 : ℤ) ≤ roundHalfEven (q / 2 ^ e) := by
      have hle : ((1 : ℤ) : ℚ) ≤ q / 2 ^ e := by
        rw [Int.cast_one, le_div_iff₀ hpow, one_mul]
        exact hge
      have hmono := roundHalfEven_mono hle
      rw [roundHalfEven_intCast] at hmono
      exact hmono
    have hbase : (1 : ℚ) ≤ 2 ^ e := one_le_zpow₀ one_le_two (by omega)
    have hcast : (1 : ℚ) ≤ (roundHalfEven (q / 2 ^ e) : ℚ) := by exact_mod_cast hround
    exact one_le_mul_of_one_le_of_one_le hcast hbase

end PyFloat

theorem planConfidence_reads {value : PyValue} (h : ConfidenceReads value) : ∃ x, planConfidence text value = .ok x := by
  unfold planConfidence
  cases value with
  | int n =>
    simp only [floatOf, PyFloat.ofInt, if_neg (not_le.mpr (h n rfl))]
    exact ⟨_, rfl⟩
  | str s =>
    simp only [floatOf]
    cases text.float s with
    | none => exact ⟨_, rfl⟩
    | some x => exact ⟨_, rfl⟩
  | _ => exact ⟨_, rfl⟩

/-- The clamp of a float lies between zero and one, and is the nearest such number to a finite one. -/
theorem clamp_cases (x : PyFloat) : ∃ q, PyFloat.pyMax (.finite 0) (PyFloat.pyMin (.finite 1) x) = .finite q ∧
    0 ≤ q ∧ q ≤ 1 ∧ ∀ p, x = .finite p → q = max 0 (min 1 p) := by
  cases x with
  | finite p =>
    have hmin : PyFloat.pyMin (.finite 1) (.finite p) = .finite (min 1 p) := by
      unfold PyFloat.pyMin PyFloat.lt
      by_cases hp : p < 1
      · rw [if_pos (decide_eq_true hp), min_eq_right hp.le]
      · rw [if_neg (by simpa using hp), min_eq_left (not_lt.mp hp)]
    have hmax : PyFloat.pyMax (.finite 0) (.finite (min 1 p)) = .finite (max 0 (min 1 p)) := by
      unfold PyFloat.pyMax PyFloat.lt
      by_cases hp : 0 < min 1 p
      · rw [if_pos (decide_eq_true hp), max_eq_right hp.le]
      · rw [if_neg (by simpa using hp), max_eq_left (not_lt.mp hp)]
    refine ⟨max 0 (min 1 p), by rw [hmin, hmax], le_max_left _ _, max_le zero_le_one (min_le_left _ _), ?_⟩
    intro p' hp'
    rw [PyFloat.finite.inj hp']
  | posInf => exact ⟨1, by decide, zero_le_one, le_refl 1, fun p hp => by cases hp⟩
  | negInf => exact ⟨0, by decide, le_refl 0, zero_le_one, fun p hp => by cases hp⟩
  | nan => exact ⟨1, by decide, zero_le_one, le_refl 1, fun p hp => by cases hp⟩

/-- Rounding to a double does not move an integer from one side of an interval between zero and one to the
other. -/
theorem clamp_toDouble (n : ℤ) : max 0 (min 1 (PyFloat.toDouble n)) = max 0 (min 1 (n : ℚ)) := by
  by_cases hn : n ≤ 0
  · have hq : (n : ℚ) ≤ 0 := by exact_mod_cast hn
    rw [max_eq_left (le_trans (min_le_right _ _) (PyFloat.toDouble_nonpos hq)), max_eq_left (le_trans (min_le_right _ _) hq)]
  · have hq : (1 : ℚ) ≤ n := by exact_mod_cast (not_le.mp hn)
    rw [min_eq_left (PyFloat.one_le_toDouble hq), min_eq_left hq]

theorem planConfidence_ok {value : PyValue} {x : PyFloat} (h : planConfidence text value = .ok x) :
    ∃ q, x = .finite q ∧ 0 ≤ q ∧ q ≤ 1 ∧ ∀ p, Stated value p → q = max 0 (min 1 p) := by
  unfold planConfidence at h
  cases hfloat : floatOf text value with
  | ok y =>
    rw [hfloat] at h
    rw [← Except.ok.inj h]
    obtain ⟨q, hq, hnonneg, hle, hclamp⟩ := clamp_cases y
    refine ⟨q, hq, hnonneg, hle, fun p hp => ?_⟩
    rcases hp with rfl | ⟨n, rfl, rfl⟩
    · exact hclamp p (Except.ok.inj hfloat).symm
    · simp only [floatOf, PyFloat.ofInt] at hfloat
      split_ifs at hfloat with hlarge
      rw [hclamp _ (Except.ok.inj hfloat).symm]
      exact clamp_toDouble n
  | error e =>
    have hhalf : x = .finite (1 / 2) := by
      rw [hfloat] at h
      split at h
      · next hy => cases hy
      · exact (Except.ok.inj h).symm
      · exact (Except.ok.inj h).symm
      · cases h
    refine ⟨1 / 2, hhalf, by norm_num, by norm_num, fun p hp => ?_⟩
    exfalso
    rcases hp with rfl | ⟨n, rfl, rfl⟩
    · cases hfloat
    · simp only [floatOf, PyFloat.ofInt] at hfloat h
      split_ifs at hfloat with hlarge
      simp only [if_pos hlarge] at h
      cases h

end Confidence

/-! ## Replies -/

section Replies

/-- The call returned a plan with a task, and with a confidence between zero and one that is the stated one, if
there is one, or else it refused the reply. -/
def Answered (loaded : Except PyError PyValue) (outcome : Except PyError PlanResult) : Prop :=
  (∃ r q, outcome = .ok r ∧ r.tasks ≠ [] ∧ r.planConfidence = .finite q ∧ 0 ≤ q ∧ q ≤ 1 ∧
    ∀ data value p, loaded = .ok (.dict data) → data.lookup "plan_confidence" = some value → Stated value p →
      q = max 0 (min 1 p)) ∨
  ∃ msg, outcome = .error (.planValidationError msg)

/-- The planner can read the reply: it is no JSON, or no object with a list of projects; or its confidence fits a
float, every project of it can be read, and its tasks can be checked up to the first one that is refused. -/
def ReplyReads (text : PlannerText) (skills : List PlannerSkill) (ids : ℕ → Uuid) : Except PyError PyValue → Prop
  | .error e => ∃ msg, e = .jsonDecodeError msg
  | .ok (.dict data) => ∀ rps, PyDict.get data "projects" = .list rps → rps ≠ [] →
    ConfidenceReads (PyDict.getOr data "plan_confidence" (.float (.finite (1 / 2)))) ∧
      (∀ rp ∈ rps, ProjectReads text rp) ∧ SpecsRead text skills (specsOf ids 0 rps)
  | .ok _ => True

variable {text : PlannerText} {skills : List PlannerSkill} {ids : ℕ → Uuid} {goal : GoalContract} {reply : String}

/-- The search for cycles of checked specs ends. -/
theorem hasCycle_checked {specs : List TaskSpec} {checked : List CheckedSpec}
    (h : checkSpecs text skills specs.length 0 specs = .ok checked) : hasCycle (edgesOf checked) specs.length ≠ none := by
  obtain ⟨hlength, hsound⟩ := checkSpecs_ok h
  have hsound' : ∀ (j : ℕ) (c : CheckedSpec), checked[j]? = some c → c.Sound skills checked.length j := by
    intro j c hc
    have hj := hsound j c hc
    rw [Nat.zero_add, ← hlength] at hj
    exact hj
  obtain ⟨b, hb, -⟩ := hasCycle_iff (edgesOf_lt hsound')
  rw [← hlength, hb]
  exact Option.some_ne_none b

/-- The checks of a list of projects. -/
theorem planOnce_escapes_of_projects {data : PyDict} {rp : PyValue} {rps : List PyValue}
    (hloads : text.loads (stripFence reply) = .ok (.dict data)) (hprojects : PyDict.get data "projects" = .list (rp :: rps)) :
    Escapes (planOnce text skills ids goal reply) ↔
      ¬ (ConfidenceReads (PyDict.getOr data "plan_confidence" (.float (.finite (1 / 2)))) ∧
        (∀ p ∈ rp :: rps, ProjectReads text p) ∧ SpecsRead text skills (specsOf ids 0 (rp :: rps))) := by
  unfold planOnce
  rw [hloads]
  simp only [hprojects]
  refine escapes_bind.trans ?_
  rw [planConfidence_escapes_iff]
  by_cases hconfidence : ConfidenceReads (PyDict.getOr data "plan_confidence" (.float (.finite (1 / 2))))
  · have hreads : ∃ c, planConfidence text (PyDict.getOr data "plan_confidence" (.float (.finite (1 / 2)))) = .ok c :=
      planConfidence_reads hconfidence
    obtain ⟨c, hc⟩ := hreads
    simp only [hc, Except.ok.injEq, exists_eq_left', hconfidence, not_true_eq_false, false_or, true_and]
    refine escapes_bind.trans ?_
    rcases readProjects_cases text goal.goalId ids 0 (rp :: rps) with ⟨hall, read, hread, hspecs⟩ | ⟨hall, hescapes⟩
    · simp only [hread, not_escapes_ok, false_or, Except.ok.injEq, exists_eq_left', hspecs]
      rw [and_iff_right hall, ← checkSpecs_escapes]
      by_cases hempty : specsOf ids 0 (rp :: rps) = []
      · rw [if_pos hempty, hempty]
        refine ⟨fun h => absurd rfl (escapes_error.mp h _), fun h => absurd h (not_escapes_ok [])⟩
      · rw [if_neg hempty]
        refine escapes_bind.trans (or_iff_left ?_)
        rintro ⟨checked, hchecked, h⟩
        have hends := hasCycle_checked hchecked
        unfold edgesOf at hends
        split at h
        · next hnone => exact hends hnone
        · exact escapes_error.mp h _ rfl
        · exact not_escapes_ok _ h
    · exact ⟨fun _ h => hall h.1, fun _ => Or.inl hescapes⟩
  · exact ⟨fun _ h => hconfidence h.1, fun _ => Or.inl hconfidence⟩

theorem planOnce_escapes_iff :
    Escapes (planOnce text skills ids goal reply) ↔ ¬ ReplyReads text skills ids (text.loads (stripFence reply)) := by
  cases hloads : text.loads (stripFence reply) with
  | error e =>
    have hne : ∀ msg, e ≠ .planValidationError msg := by
      rintro msg rfl
      exact text.loads_ne _ msg hloads
    by_cases hdecode : ∃ msg, e = .jsonDecodeError msg
    · obtain ⟨msg, rfl⟩ := hdecode
      have hrefused : ¬ Escapes (planOnce text skills ids goal reply) := by
        unfold planOnce
        rw [hloads]
        exact fun h => escapes_error.mp h _ rfl
      exact ⟨fun h => absurd h hrefused, fun h => absurd ⟨msg, rfl⟩ h⟩
    · have hraised : planOnce text skills ids goal reply = .error e := by
        unfold planOnce
        rw [hloads]
        split
        · next msg h => exact absurd ⟨msg, Except.error.inj h⟩ hdecode
        · next h => rw [Except.error.inj h]
        · next h => cases h
        · next h => cases h
      rw [hraised, escapes_error]
      exact ⟨fun _ => hdecode, fun _ => hne⟩
  | ok value =>
    cases value with
    | dict data =>
      by_cases hprojects : ∃ rp rps, PyDict.get data "projects" = .list (rp :: rps)
      · obtain ⟨rp, rps, hprojects⟩ := hprojects
        rw [planOnce_escapes_of_projects hloads hprojects]
        refine not_congr ⟨fun h rps' hrps' _ => ?_, fun h => h _ hprojects (List.cons_ne_nil rp rps)⟩
        rw [hprojects] at hrps'
        rw [← PyValue.list.inj hrps']
        exact h
      · have hrefused : ¬ Escapes (planOnce text skills ids goal reply) := by
          unfold planOnce
          rw [hloads]
          simp only
          split
          · next rp rps h => exact absurd ⟨rp, rps, h⟩ hprojects
          · exact fun h => escapes_error.mp h _ rfl
        refine ⟨fun h => absurd h hrefused, fun h => absurd (fun rps hrps hne => ?_) h⟩
        obtain ⟨rp, rps', rfl⟩ := List.exists_cons_of_ne_nil hne
        exact absurd ⟨rp, rps', hrps⟩ hprojects
    | _ =>
      have hrefused : ¬ Escapes (planOnce text skills ids goal reply) := by
        unfold planOnce
        rw [hloads]
        exact fun h => escapes_error.mp h _ rfl
      exact ⟨fun h => absurd h hrefused, fun h => absurd trivial h⟩

/-- The confidence of a returned plan is that of the reply. -/
theorem planOnce_confidence {r : PlanResult} (h : planOnce text skills ids goal reply = .ok r) :
    ∃ data, text.loads (stripFence reply) = .ok (.dict data) ∧
      planConfidence text (PyDict.getOr data "plan_confidence" (.float (.finite (1 / 2)))) = .ok r.planConfidence := by
  unfold planOnce at h
  split at h
  · cases h
  · cases h
  · next data hloads =>
    refine ⟨data, hloads, ?_⟩
    split at h
    · obtain ⟨confidence, hconfidence, h⟩ := (except_bind_ok_iff _ _ _).mp h
      obtain ⟨read, -, h⟩ := (except_bind_ok_iff _ _ _).mp h
      by_cases hempty : read.flatMap (·.2) = []
      · simp only [if_pos hempty] at h
        cases h
      · simp only [if_neg hempty] at h
        obtain ⟨checked, -, h⟩ := (except_bind_ok_iff _ _ _).mp h
        split at h
        · cases h
        · cases h
        · obtain rfl := Except.ok.inj h
          exact hconfidence
    · cases h
  · cases h

theorem planOnce_tasks_ne {r : PlanResult} (h : planOnce text skills ids goal reply = .ok r) : r.tasks ≠ [] := by
  obtain ⟨first, checked, htasks, hne, -, -⟩ := planOnce_ok h
  obtain ⟨spec, specs, rfl⟩ := List.exists_cons_of_ne_nil hne
  rw [htasks]
  exact List.cons_ne_nil _ _

/-- `_plan_once` returns a plan or refuses the reply with a `PlanValidationError` exactly for the replies that it can
read. -/
theorem planOnce_answered_iff (text : PlannerText) (skills : List PlannerSkill) (ids : ℕ → Uuid) (goal : GoalContract)
    (reply : String) :
    Answered (text.loads (stripFence reply)) (planOnce text skills ids goal reply) ↔
      ReplyReads text skills ids (text.loads (stripFence reply)) := by
  have hescapes : Escapes (planOnce text skills ids goal reply) ↔ _ := planOnce_escapes_iff
  rw [← not_iff_not, ← hescapes]
  constructor
  · intro h
    cases hplan : planOnce text skills ids goal reply with
    | error e =>
      rw [escapes_error]
      rintro msg rfl
      exact h (Or.inr ⟨msg, hplan⟩)
    | ok r =>
      exfalso
      obtain ⟨data, hloads, hconfidence⟩ := planOnce_confidence hplan
      obtain ⟨q, hq, hnonneg, hle, hclamp⟩ := planConfidence_ok hconfidence
      refine h (Or.inl ⟨r, q, hplan, planOnce_tasks_ne hplan, hq, hnonneg, hle, fun data' value p hdata hvalue hp => ?_⟩)
      rw [hloads] at hdata
      obtain rfl := PyValue.dict.inj (Except.ok.inj hdata)
      refine hclamp p ?_
      unfold PyDict.getOr
      rw [hvalue]
      exact hp
  · rintro ⟨e, he, hne⟩ (⟨r, q, hok, -⟩ | ⟨msg, hrefused⟩)
    · rw [hok] at he
      cases he
    · rw [hrefused] at he
      exact hne msg (Except.error.inj he).symm

/-- The only project of the reply is a text, on which `get` is called. -/
theorem shapelessReply_not_answered : planOnce replyText twoSkills (BitVec.ofNat 128) someGoal shapelessReply =
      .error (.attributeError "object has no attribute 'get'") ∧
    ¬ ∀ (text : PlannerText) (skills : List PlannerSkill) (ids : ℕ → Uuid) (goal : GoalContract) (reply : String),
      Answered (text.loads (stripFence reply)) (planOnce text skills ids goal reply) := by
  have hraised : planOnce replyText twoSkills (BitVec.ofNat 128) someGoal shapelessReply =
      .error (.attributeError "object has no attribute 'get'") := by decide +kernel
  refine ⟨hraised, fun h => ?_⟩
  rcases h replyText twoSkills (BitVec.ofNat 128) someGoal shapelessReply with ⟨r, q, hok, -⟩ | ⟨msg, hrefused⟩
  · rw [hraised] at hok
    cases hok
  · rw [hraised] at hrefused
    cases hrefused

/-- With replies that it can read, `plan` makes its second attempt, and returns a plan or refuses the second
reply. -/
theorem plan_answered {retryIds : ℕ → Uuid} {standalone : String → Bool} {llm : String → String}
    (hstandalone : standalone goal.objective = false)
    (hreads : ∀ msg ids, ReplyReads text skills ids (text.loads (stripFence (llm msg)))) :
    (∃ r, plan text skills ids retryIds standalone (fun msg => .ok (llm msg)) goal = .ok r) ∨
      ∃ msg, plan text skills ids retryIds standalone (fun msg => .ok (llm msg)) goal =
        .error (.planValidationError msg) := by
  have hattempt : ∀ ids msg, (∃ r, planOnce text skills ids goal (llm msg) = .ok r) ∨
      ∃ refusal, planOnce text skills ids goal (llm msg) = .error (.planValidationError refusal) := by
    intro ids msg
    cases hplan : planOnce text skills ids goal (llm msg) with
    | ok r => exact Or.inl ⟨r, rfl⟩
    | error e =>
      by_contra hno
      push Not at hno
      have hescapes : Escapes (planOnce text skills ids goal (llm msg)) :=
        ⟨e, hplan, fun refusal he => hno.2 refusal (by rw [he])⟩
      exact planOnce_escapes_iff.mp hescapes (hreads msg ids)
  have hroute : ¬("rigel.skill.scaffold" ∈ knownSkills skills ∧ standalone goal.objective = true) := by
    rw [hstandalone]
    simp
  unfold plan
  simp only [if_neg hroute, bind, Except.bind]
  rcases hattempt ids "" with ⟨r, hr⟩ | ⟨refusal, hrefused⟩
  · rw [hr]
    exact Or.inl ⟨r, rfl⟩
  · rw [hrefused]
    exact hattempt retryIds refusal

end Replies

end Galaxz
