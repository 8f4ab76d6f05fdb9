import Galaxz.Goals.Substitution
import Galaxz.Goals.Proofs.StoreProofs

/-!
# Proofs: payload substitution

What a reference denotes is said without the order in which `resolve` looks at things, and the relation
`Substituted` says what may stand in the place of what. `resolve` is proved to compute it, by recursion over
the payload.
-/

namespace Galaxz

/-! ## What substitution is -/

/-- The value under the keys, one after the other. -/
def valueAt : List String → PyValue → Option PyValue
  | [], v => some v
  | part :: parts, v => match v with
    | .dict items => (items.lookup part).bind (valueAt parts)
    | _ => none

/-- The keys of a path. -/
def pathParts : Option String → List String
  | none => []
  | some path => ((strip path).toList.splitOn '.').map String.ofList

/-- A reference, as `_REFERENCE` takes it apart, denotes the value: its id is the id of a declared dependency
with a result, and the value is at its path in that result. -/
def Denotes (declared : List Uuid) (results : Uuid → Option PyDict) (r : String × Option String) (v : PyValue) :
    Prop :=
  ∃ id result, Uuid.parse r.1 = .ok id ∧ id ∈ declared ∧ results id = some result ∧
    valueAt (pathParts r.2) (.dict result) = some v

mutual

/-- The second value is the first one with every reference replaced by what it denotes, and nothing else
changed. What was put in is not looked at again. -/
inductive Substituted (denotes : String × Option String → PyValue → Prop) : PyValue → PyValue → Prop where
  | reference {s : String} {r : String × Option String} {v : PyValue} (hs : matchReference s = some r)
      (hv : denotes r v) : Substituted denotes (.str s) v
  | text {s : String} (hs : matchReference s = none) : Substituted denotes (.str s) (.str s)
  | none : Substituted denotes .none .none
  | bool (b : Bool) : Substituted denotes (.bool b) (.bool b)
  | int (n : ℤ) : Substituted denotes (.int n) (.int n)
  | float (x : PyFloat) : Substituted denotes (.float x) (.float x)
  | other : Substituted denotes .other .other
  | list {xs ys : List PyValue} (h : SubstitutedList denotes xs ys) : Substituted denotes (.list xs) (.list ys)
  | dict {xs ys : PyDict} (h : SubstitutedItems denotes xs ys) : Substituted denotes (.dict xs) (.dict ys)

/-- The same, place by place in a list. -/
inductive SubstitutedList (denotes : String × Option String → PyValue → Prop) :
    List PyValue → List PyValue → Prop where
  | nil : SubstitutedList denotes [] []
  | cons {x y : PyValue} {xs ys : List PyValue} (h : Substituted denotes x y) (hs : SubstitutedList denotes xs ys) :
      SubstitutedList denotes (x :: xs) (y :: ys)

/-- The same, key by key in a `dict`. -/
inductive SubstitutedItems (denotes : String × Option String → PyValue → Prop) : PyDict → PyDict → Prop where
  | nil : SubstitutedItems denotes [] []
  | cons {key : String} {x y : PyValue} {xs ys : PyDict} (h : Substituted denotes x y)
      (hs : SubstitutedItems denotes xs ys) : SubstitutedItems denotes ((key, x) :: xs) ((key, y) :: ys)

end

mutual

/-- The string is a leaf of the value. -/
def OccursIn (s : String) : PyValue → Prop
  | .str t => t = s
  | .list xs => OccursInList s xs
  | .dict items => OccursInItems s items
  | _ => False

/-- The same, for the elements of a list. -/
def OccursInList (s : String) : List PyValue → Prop
  | [] => False
  | x :: xs => OccursIn s x ∨ OccursInList s xs

/-- The same, for the items of a `dict`. -/
def OccursInItems (s : String) : List (String × PyValue) → Prop
  | [] => False
  | (_, x) :: xs => OccursIn s x ∨ OccursInItems s xs

end

/-- The results of the tasks, by id. -/
def resultOf (dependencies : List PlannedTask) (id : Uuid) : Option PyDict := (byId dependencies id).bind (·.result)

/-! ## References -/

section Resolve

variable {declared : List Uuid} {dependencies : List PlannedTask}

theorem walkPath_eq (missing : PyError) (parts : List String) (v : PyValue) :
    walkPath missing parts v = (valueAt parts v).elim (.error missing) .ok := by
  induction parts generalizing v with
  | nil => rfl
  | cons part parts ih =>
    cases v with
    | dict items =>
      rw [walkPath, valueAt]
      cases hitem : items.lookup part with
      | none => rfl
      | some item => exact ih item
    | _ => rfl

/-- A reference resolves to what it denotes. -/
theorem resolveReference_ok_iff {id : String} {path : Option String} {v : PyValue} :
    resolveReference declared dependencies id path = .ok v ↔
      Denotes declared (resultOf dependencies) (id, path) v := by
  unfold resolveReference Denotes resultOf
  cases hparse : Uuid.parse id with
  | error e => simp
  | ok dependencyId =>
    simp only [Except.ok.injEq, exists_and_left, exists_eq_left']
    by_cases hdeclared : dependencyId ∈ declared
    · rw [if_neg (not_not.mpr hdeclared)]
      cases hresult : (byId dependencies dependencyId).bind (·.result) with
      | none => simp
      | some result =>
        cases path with
        | none => simp [hdeclared, pathParts, valueAt]
        | some path =>
          simp only [walkPath_eq, pathParts, hdeclared, true_and, Option.some.injEq, exists_eq_left']
          cases valueAt (((strip path).toList.splitOn '.').map String.ofList) (.dict result) with
          | none => simp
          | some w => simp
    · rw [if_pos hdeclared]
      simp [hdeclared]

theorem resolveReference_error {id : String} {path : Option String} {e : PyError}
    (h : resolveReference declared dependencies id path = .error e) : ∃ msg, e = .payloadResolutionError msg := by
  unfold resolveReference at h
  split at h
  · cases h
    exact ⟨_, rfl⟩
  · split_ifs at h
    · split at h
      · cases h
        exact ⟨_, rfl⟩
      · split at h
        · cases h
        · next path =>
          rw [walkPath_eq] at h
          cases hvalue : valueAt (((strip path).toList.splitOn '.').map String.ofList) (.dict _) with
          | none =>
            rw [hvalue] at h
            cases h
            exact ⟨_, rfl⟩
          | some w =>
            rw [hvalue] at h
            cases h
    · cases h
      exact ⟨_, rfl⟩

/-! ## Values -/

mutual

/-- `resolve` computes the substitution. -/
theorem resolve_ok_iff : ∀ v w : PyValue, resolve declared dependencies v = .ok w ↔
    Substituted (Denotes declared (resultOf dependencies)) v w
  | .str s, w => by
    rw [resolve]
    cases hs : matchReference s with
    | none =>
      constructor
      · intro h
        rw [← Except.ok.inj h]
        exact .text hs
      · rintro (⟨hs', -⟩ | -)
        · rw [hs] at hs'
          cases hs'
        · rfl
    | some r =>
      constructor
      · exact fun h => .reference hs (resolveReference_ok_iff.mp h)
      · rintro (⟨hs', hv⟩ | hs')
        · rw [hs] at hs'
          cases hs'
          exact resolveReference_ok_iff.mpr hv
        · rw [hs] at hs'
          cases hs'
  | .list xs, w => by
    rw [resolve]
    constructor
    · intro h
      obtain ⟨ys, hys, h⟩ := (except_bind_ok_iff _ _ _).mp h
      rw [← Except.ok.inj h]
      exact .list ((resolveList_ok_iff xs ys).mp hys)
    · intro h
      cases h with
      | list h =>
        rw [(resolveList_ok_iff xs _).mpr h]
        rfl
  | .dict xs, w => by
    rw [resolve]
    constructor
    · intro h
      obtain ⟨ys, hys, h⟩ := (except_bind_ok_iff _ _ _).mp h
      rw [← Except.ok.inj h]
      exact .dict ((resolveItems_ok_iff xs ys).mp hys)
    · intro h
      cases h with
      | dict h =>
        rw [(resolveItems_ok_iff xs _).mpr h]
        rfl
  | .none, w => ⟨fun h => Except.ok.inj h ▸ .none, fun h => by cases h; rfl⟩
  | .bool b, w => ⟨fun h => Except.ok.inj h ▸ .bool b, fun h => by cases h; rfl⟩
  | .int n, w => ⟨fun h => Except.ok.inj h ▸ .int n, fun h => by cases h; rfl⟩
  | .float x, w => ⟨fun h => Except.ok.inj h ▸ .float x, fun h => by cases h; rfl⟩
  | .other, w => ⟨fun h => Except.ok.inj h ▸ .other, fun h => by cases h; rfl⟩

theorem resolveList_ok_iff : ∀ xs ys : List PyValue, resolveList declared dependencies xs = .ok ys ↔
    SubstitutedList (Denotes declared (resultOf dependencies)) xs ys
  | [], ys => ⟨fun h => Except.ok.inj h ▸ .nil, fun h => by cases h; rfl⟩
  | x :: xs, ys => by
    rw [resolveList]
    constructor
    · intro h
      obtain ⟨y, hy, h⟩ := (except_bind_ok_iff _ _ _).mp h
      obtain ⟨zs, hzs, h⟩ := (except_bind_ok_iff _ _ _).mp h
      rw [← Except.ok.inj h]
      exact .cons ((resolve_ok_iff x y).mp hy) ((resolveList_ok_iff xs zs).mp hzs)
    · intro h
      cases h with
      | cons h hs =>
        rw [(resolve_ok_iff x _).mpr h, (resolveList_ok_iff xs _).mpr hs]
        rfl

theorem resolveItems_ok_iff : ∀ xs ys : PyDict, resolveItems declared dependencies xs = .ok ys ↔
    SubstitutedItems (Denotes declared (resultOf dependencies)) xs ys
  | [], ys => ⟨fun h => Except.ok.inj h ▸ .nil, fun h => by cases h; rfl⟩
  | (key, x) :: xs, ys => by
    rw [resolveItems]
    constructor
    · intro h
      obtain ⟨y, hy, h⟩ := (except_bind_ok_iff _ _ _).mp h
      obtain ⟨zs, hzs, h⟩ := (except_bind_ok_iff _ _ _).mp h
      rw [← Except.ok.inj h]
      exact .cons ((resolve_ok_iff x y).mp hy) ((resolveItems_ok_iff xs zs).mp hzs)
    · intro h
      cases h with
      | cons h hs =>
        rw [(resolve_ok_iff x _).mpr h, (resolveItems_ok_iff xs _).mpr hs]
        rfl

end

/-- A sequence of two computations raises in the first or in the second. -/
theorem except_bind_error {ε α β : Type} {x : Except ε α} {f : α → Except ε β} {e : ε} (h : x.bind f = .error e) :
    x = .error e ∨ ∃ a, x = .ok a ∧ f a = .error e := by
  cases x with
  | error e' => exact Or.inl (congrArg Except.error (Except.error.inj h))
  | ok a => exact Or.inr ⟨a, rfl, h⟩

variable (declared dependencies) in
/-- The string is a reference, but one without a value: its id is none, or that of a task which is not a declared
dependency or has no result, or the result has no such path. -/
inductive BadReference (s : String) : Prop where
  | malformed {r : String × Option String} {e : PyError} (hs : matchReference s = some r)
      (hid : Uuid.parse r.1 = .error e)
  | undeclared {r : String × Option String} {id : Uuid} (hs : matchReference s = some r)
      (hid : Uuid.parse r.1 = .ok id) (hdeclared : id ∉ declared)
  | unresolved {r : String × Option String} {id : Uuid} (hs : matchReference s = some r)
      (hid : Uuid.parse r.1 = .ok id) (hresult : resultOf dependencies id = none)
  | noPath {r : String × Option String} {id : Uuid} {result : PyDict} (hs : matchReference s = some r)
      (hid : Uuid.parse r.1 = .ok id) (hresult : resultOf dependencies id = some result)
      (hpath : valueAt (pathParts r.2) (.dict result) = none)

/-- The references without a value are those that denote nothing. -/
theorem badReference_iff {s : String} : BadReference declared dependencies s ↔
    ∃ r, matchReference s = some r ∧ ∀ v, ¬ Denotes declared (resultOf dependencies) r v := by
  constructor
  · intro h
    cases h with
    | @malformed r e hs hid =>
      refine ⟨r, hs, fun v hv => ?_⟩
      obtain ⟨id', -, hid', -⟩ := hv
      rw [hid] at hid'
      cases hid'
    | @undeclared r id hs hid hdeclared =>
      refine ⟨r, hs, fun v hv => ?_⟩
      obtain ⟨id', -, hid', hmem, -⟩ := hv
      rw [hid] at hid'
      cases hid'
      exact hdeclared hmem
    | @unresolved r id hs hid hresult =>
      refine ⟨r, hs, fun v hv => ?_⟩
      obtain ⟨id', result, hid', -, hresult', -⟩ := hv
      rw [hid] at hid'
      cases hid'
      rw [hresult] at hresult'
      cases hresult'
    | @noPath r id result hs hid hresult hpath =>
      refine ⟨r, hs, fun v hv => ?_⟩
      obtain ⟨id', result', hid', -, hresult', hv⟩ := hv
      rw [hid] at hid'
      cases hid'
      rw [hresult] at hresult'
      cases hresult'
      rw [hpath] at hv
      cases hv
  · rintro ⟨r, hs, hno⟩
    cases hid : Uuid.parse r.1 with
    | error e => exact .malformed hs hid
    | ok id =>
      by_cases hdeclared : id ∈ declared
      · cases hresult : resultOf dependencies id with
        | none => exact .unresolved hs hid hresult
        | some result =>
          cases hpath : valueAt (pathParts r.2) (.dict result) with
          | none => exact .noPath hs hid hresult hpath
          | some v => exact absurd ⟨id, result, hid, hdeclared, hresult, hpath⟩ (hno v)
      · exact .undeclared hs hid hdeclared

/-- The exception is a `PayloadResolutionError`. -/
def IsResolutionError (e : PyError) : Prop := ∃ msg, e = .payloadResolutionError msg

mutual

/-- `resolve` raises a `PayloadResolutionError`, for a reference in the value that denotes nothing. -/
theorem resolve_error : ∀ (v : PyValue) {e : PyError}, resolve declared dependencies v = .error e →
    IsResolutionError e ∧ ∃ s, OccursIn s v ∧ BadReference declared dependencies s
  | .str s, e, h => by
    rw [resolve] at h
    cases hs : matchReference s with
    | none =>
      rw [hs] at h
      cases h
    | some r =>
      rw [hs] at h
      have h : resolveReference declared dependencies r.1 r.2 = .error e := h
      refine ⟨resolveReference_error h, s, rfl, badReference_iff.mpr ⟨r, hs, fun v hv => ?_⟩⟩
      have hok := resolveReference_ok_iff.mpr hv
      rw [h] at hok
      cases hok
  | .list xs, e, h => by
    rw [resolve] at h
    rcases except_bind_error h with h | ⟨ys, -, h⟩
    · exact resolveList_error xs h
    · cases h
  | .dict xs, e, h => by
    rw [resolve] at h
    rcases except_bind_error h with h | ⟨ys, -, h⟩
    · exact resolveItems_error xs h
    · cases h
  | .none, e, h => by cases h
  | .bool b, e, h => by cases h
  | .int n, e, h => by cases h
  | .float x, e, h => by cases h
  | .other, e, h => by cases h

theorem resolveList_error : ∀ (xs : List PyValue) {e : PyError}, resolveList declared dependencies xs = .error e →
    IsResolutionError e ∧ ∃ s, OccursInList s xs ∧ BadReference declared dependencies s
  | [], e, h => by cases h
  | x :: xs, e, h => by
    rw [resolveList] at h
    rcases except_bind_error h with h | ⟨y, -, h⟩
    · obtain ⟨he, s, hs, hbad⟩ := resolve_error x h
      exact ⟨he, s, Or.inl hs, hbad⟩
    · rcases except_bind_error h with h | ⟨ys, -, h⟩
      · obtain ⟨he, s, hs, hbad⟩ := resolveList_error xs h
        exact ⟨he, s, Or.inr hs, hbad⟩
      · cases h

theorem resolveItems_error : ∀ (xs : PyDict) {e : PyError}, resolveItems declared dependencies xs = .error e →
    IsResolutionError e ∧ ∃ s, OccursInItems s xs ∧ BadReference declared dependencies s
  | [], e, h => by cases h
  | (key, x) :: xs, e, h => by
    rw [resolveItems] at h
    rcases except_bind_error h with h | ⟨y, -, h⟩
    · obtain ⟨he, s, hs, hbad⟩ := resolve_error x h
      exact ⟨he, s, Or.inl hs, hbad⟩
    · rcases except_bind_error h with h | ⟨ys, -, h⟩
      · obtain ⟨he, s, hs, hbad⟩ := resolveItems_error xs h
        exact ⟨he, s, Or.inr hs, hbad⟩
      · cases h

end

mutual

/-- Where a value has a substitution, its references denote something. -/
theorem Substituted.denoted {s : String} : ∀ {v w : PyValue},
    Substituted (Denotes declared (resultOf dependencies)) v w → OccursIn s v → ¬ BadReference declared dependencies s
  | _, _, .reference hs hv, hoccurs, hbad => by
    obtain ⟨r, hr, hno⟩ := badReference_iff.mp hbad
    cases hoccurs
    rw [hs] at hr
    cases hr
    exact hno _ hv
  | _, _, .text hs, hoccurs, hbad => by
    obtain ⟨r, hr, -⟩ := badReference_iff.mp hbad
    cases hoccurs
    rw [hs] at hr
    cases hr
  | _, _, .list h, hoccurs, hbad => SubstitutedList.denoted h hoccurs hbad
  | _, _, .dict h, hoccurs, hbad => SubstitutedItems.denoted h hoccurs hbad
  | _, _, .none, hoccurs, _ => hoccurs
  | _, _, .bool _, hoccurs, _ => hoccurs
  | _, _, .int _, hoccurs, _ => hoccurs
  | _, _, .float _, hoccurs, _ => hoccurs
  | _, _, .other, hoccurs, _ => hoccurs

theorem SubstitutedList.denoted {s : String} : ∀ {xs ys : List PyValue},
    SubstitutedList (Denotes declared (resultOf dependencies)) xs ys → OccursInList s xs →
      ¬ BadReference declared dependencies s
  | _, _, .nil, hoccurs, _ => hoccurs
  | _, _, .cons h hs, hoccurs, hbad => by
    rcases hoccurs with hoccurs | hoccurs
    · exact Substituted.denoted h hoccurs hbad
    · exact SubstitutedList.denoted hs hoccurs hbad

theorem SubstitutedItems.denoted {s : String} : ∀ {xs ys : PyDict},
    SubstitutedItems (Denotes declared (resultOf dependencies)) xs ys → OccursInItems s xs →
      ¬ BadReference declared dependencies s
  | _, _, .nil, hoccurs, _ => hoccurs
  | _, _, .cons h hs, hoccurs, hbad => by
    rcases hoccurs with hoccurs | hoccurs
    · exact Substituted.denoted h hoccurs hbad
    · exact SubstitutedItems.denoted hs hoccurs hbad

end

/-! ## The results that are read -/

/-- Only the results of the declared dependencies are read. -/
theorem resolveReference_congr {others : List PlannedTask}
    (h : ∀ id ∈ declared, resultOf dependencies id = resultOf others id) (id : String) (path : Option String) :
    resolveReference declared dependencies id path = resolveReference declared others id path := by
  unfold resolveReference
  cases Uuid.parse id with
  | error e => rfl
  | ok dependencyId =>
    by_cases hdeclared : dependencyId ∈ declared
    · have hsame : (byId dependencies dependencyId).bind (·.result) = (byId others dependencyId).bind (·.result) :=
        h dependencyId hdeclared
      simp only [hsame]
    · simp only [if_pos hdeclared]

mutual

theorem resolve_congr {others : List PlannedTask}
    (h : ∀ id ∈ declared, resultOf dependencies id = resultOf others id) :
    ∀ v : PyValue, resolve declared dependencies v = resolve declared others v
  | .str s => by
    rw [resolve, resolve]
    cases matchReference s with
    | none => rfl
    | some r => exact resolveReference_congr h r.1 r.2
  | .list xs => by rw [resolve, resolve, resolveList_congr h xs]
  | .dict xs => by rw [resolve, resolve, resolveItems_congr h xs]
  | .none => rfl
  | .bool _ => rfl
  | .int _ => rfl
  | .float _ => rfl
  | .other => rfl

theorem resolveList_congr {others : List PlannedTask}
    (h : ∀ id ∈ declared, resultOf dependencies id = resultOf others id) :
    ∀ xs : List PyValue, resolveList declared dependencies xs = resolveList declared others xs
  | [] => rfl
  | x :: xs => by rw [resolveList, resolveList, resolve_congr h x, resolveList_congr h xs]

theorem resolveItems_congr {others : List PlannedTask}
    (h : ∀ id ∈ declared, resultOf dependencies id = resultOf others id) :
    ∀ xs : PyDict, resolveItems declared dependencies xs = resolveItems declared others xs
  | [] => rfl
  | (key, x) :: xs => by rw [resolveItems, resolveItems, resolve_congr h x, resolveItems_congr h xs]

end

theorem resolvePayload_congr {task : PlannedTask} {others : List PlannedTask}
    (h : ∀ id ∈ task.dependsOn, resultOf dependencies id = resultOf others id) (maxBytes : ℕ) :
    resolvePayload task dependencies maxBytes = resolvePayload task others maxBytes := by
  unfold resolvePayload
  rw [resolveItems_congr h]

/-! ## Values of JSON -/

theorem serializable_lookup {items : PyDict} (h : PyValue.serializableItems items = true) {key : String} {v : PyValue}
    (hv : items.lookup key = some v) : v.serializable = true := by
  induction items with
  | nil => cases hv
  | cons item items ih =>
    obtain ⟨k, w⟩ := item
    rw [PyValue.serializableItems, Bool.and_eq_true] at h
    rw [List.lookup_cons] at hv
    cases hk : key == k with
    | true =>
      rw [hk] at hv
      cases hv
      exact h.1
    | false =>
      rw [hk] at hv
      exact ih h.2 hv

/-- What is inside a value of JSON is one. -/
theorem serializable_valueAt {parts : List String} {v w : PyValue} (h : v.serializable = true)
    (hw : valueAt parts v = some w) : w.serializable = true := by
  induction parts generalizing v with
  | nil =>
    cases hw
    exact h
  | cons part parts ih =>
    cases v with
    | dict items =>
      rw [valueAt] at hw
      obtain ⟨item, hitem, hw⟩ := Option.bind_eq_some_iff.mp hw
      exact ih (serializable_lookup h hitem) hw
    | _ => cases hw

mutual

/-- Where references denote values of JSON, the substitution keeps JSON. -/
theorem Substituted.serializable {denotes : String × Option String → PyValue → Prop}
    (hdenotes : ∀ r v, denotes r v → v.serializable = true) : ∀ {v w : PyValue}, Substituted denotes v w →
      v.serializable = true → w.serializable = true
  | _, _, .reference _ hv, _ => hdenotes _ _ hv
  | _, _, .text _, h => h
  | _, _, .none, h => h
  | _, _, .bool _, h => h
  | _, _, .int _, h => h
  | _, _, .float _, h => h
  | _, _, .other, h => h
  | _, _, .list hs, h => SubstitutedList.serializable hdenotes hs h
  | _, _, .dict hs, h => SubstitutedItems.serializable hdenotes hs h

theorem SubstitutedList.serializable {denotes : String × Option String → PyValue → Prop}
    (hdenotes : ∀ r v, denotes r v → v.serializable = true) : ∀ {xs ys : List PyValue},
      SubstitutedList denotes xs ys → PyValue.serializableList xs = true → PyValue.serializableList ys = true
  | _, _, .nil, h => h
  | _, _, .cons hx hxs, h => by
    rw [PyValue.serializableList, Bool.and_eq_true] at h ⊢
    exact ⟨Substituted.serializable hdenotes hx h.1, SubstitutedList.serializable hdenotes hxs h.2⟩

theorem SubstitutedItems.serializable {denotes : String × Option String → PyValue → Prop}
    (hdenotes : ∀ r v, denotes r v → v.serializable = true) : ∀ {xs ys : PyDict},
      SubstitutedItems denotes xs ys → PyValue.serializableItems xs = true → PyValue.serializableItems ys = true
  | _, _, .nil, h => h
  | _, _, .cons hx hxs, h => by
    rw [PyValue.serializableItems, Bool.and_eq_true] at h ⊢
    exact ⟨Substituted.serializable hdenotes hx h.1, SubstitutedItems.serializable hdenotes hxs h.2⟩

end

/-! ## The payload -/

/-- With results of JSON, references denote values of JSON. -/
theorem Denotes.serializable {results : Uuid → Option PyDict}
    (hresults : ∀ id ∈ declared, ∀ result, results id = some result → PyValue.serializableItems result = true)
    {r : String × Option String} {v : PyValue} (h : Denotes declared results r v) : v.serializable = true := by
  obtain ⟨id, result, -, hid, hresult, hv⟩ := h
  exact serializable_valueAt (v := .dict result) (hresults id hid result hresult) hv

end Resolve

section Payload

variable {task : PlannedTask} {dependencies : List PlannedTask} {maxBytes : ℕ}

/-- What the payload of the task becomes. -/
def PayloadSubstituted (task : PlannedTask) (dependencies : List PlannedTask) (out : PyDict) : Prop :=
  SubstitutedItems (Denotes task.dependsOn (resultOf dependencies)) task.payload out

/-- `resolve_payload` substitutes, and then only the size of the encoding is looked at. -/
theorem resolvePayload_eq (hpayload : PyValue.serializableItems task.payload = true)
    (hresults : ∀ id ∈ task.dependsOn, ∀ result, resultOf dependencies id = some result →
      PyValue.serializableItems result = true) :
    resolvePayload task dependencies maxBytes =
      (resolveItems task.dependsOn dependencies task.payload).bind fun out =>
        if maxBytes < (PyValue.dict out).jsonSize then
          .error (.payloadResolutionError "resolved payload exceeds the configured size limit")
        else .ok out := by
  unfold resolvePayload
  cases hout : resolveItems task.dependsOn dependencies task.payload with
  | error e => rfl
  | ok out =>
    have hsubstituted := (resolveItems_ok_iff _ _).mp hout
    have hjson : PyValue.serializableItems out = true :=
      hsubstituted.serializable (fun r v hv => Denotes.serializable hresults hv) hpayload
    show (if PyValue.serializableItems out = false then _ else _) = _
    rw [if_neg (by rw [hjson]; decide)]
    rfl

theorem resolvePayload_ok_iff (hpayload : PyValue.serializableItems task.payload = true)
    (hresults : ∀ id ∈ task.dependsOn, ∀ result, resultOf dependencies id = some result →
      PyValue.serializableItems result = true) (out : PyDict) :
    resolvePayload task dependencies maxBytes = .ok out ↔
      PayloadSubstituted task dependencies out ∧ (PyValue.dict out).jsonSize ≤ maxBytes := by
  rw [resolvePayload_eq hpayload hresults, except_bind_ok_iff]
  constructor
  · rintro ⟨out', hout', h⟩
    by_cases hsize : maxBytes < (PyValue.dict out').jsonSize
    · rw [if_pos hsize] at h
      cases h
    · rw [if_neg hsize] at h
      cases h
      exact ⟨(resolveItems_ok_iff _ _).mp hout', not_lt.mp hsize⟩
  · rintro ⟨hout, hsize⟩
    exact ⟨out, (resolveItems_ok_iff _ _).mpr hout, if_neg (not_lt.mpr hsize)⟩

theorem resolvePayload_error (hpayload : PyValue.serializableItems task.payload = true)
    (hresults : ∀ id ∈ task.dependsOn, ∀ result, resultOf dependencies id = some result →
      PyValue.serializableItems result = true) {e : PyError}
    (h : resolvePayload task dependencies maxBytes = .error e) :
    IsResolutionError e ∧
      ((∃ s, OccursInItems s task.payload ∧ BadReference task.dependsOn dependencies s) ∨
        ∃ out, PayloadSubstituted task dependencies out ∧ maxBytes < (PyValue.dict out).jsonSize) := by
  rw [resolvePayload_eq hpayload hresults] at h
  rcases except_bind_error h with h | ⟨out, hout, h⟩
  · have hbad := resolveItems_error _ h
    exact ⟨hbad.1, Or.inl hbad.2⟩
  · by_cases hsize : maxBytes < (PyValue.dict out).jsonSize
    · rw [if_pos hsize] at h
      cases h
      exact ⟨⟨_, rfl⟩, Or.inr ⟨out, (resolveItems_ok_iff _ _).mp hout, hsize⟩⟩
    · rw [if_neg hsize] at h
      cases h

/-- The substitution has one outcome at most. -/
theorem PayloadSubstituted.unique {out out' : PyDict} (h : PayloadSubstituted task dependencies out)
    (h' : PayloadSubstituted task dependencies out') : out = out' := by
  have hout := (resolveItems_ok_iff _ _).mpr h
  rw [(resolveItems_ok_iff _ _).mpr h'] at hout
  exact (Except.ok.inj hout).symm

/-- `resolve_payload` returns the payload with every reference replaced by what it denotes, where every reference
denotes something and the encoding is not too long, and raises a `PayloadResolutionError` otherwise. What tasks
other than the declared dependencies have as a result makes no difference. -/
theorem resolvePayload_spec (task : PlannedTask) (dependencies : List PlannedTask) (maxBytes : ℕ)
    (hpayload : PyValue.serializableItems task.payload = true)
    (hresults : ∀ id ∈ task.dependsOn, ∀ result, resultOf dependencies id = some result →
      PyValue.serializableItems result = true) :
    (∀ out, resolvePayload task dependencies maxBytes = .ok out ↔
      PayloadSubstituted task dependencies out ∧ (PyValue.dict out).jsonSize ≤ maxBytes) ∧
    (∀ e, resolvePayload task dependencies maxBytes = .error e → ∃ msg, e = .payloadResolutionError msg) ∧
    ((∃ e, resolvePayload task dependencies maxBytes = .error e) ↔
      (∃ s, OccursInItems s task.payload ∧ BadReference task.dependsOn dependencies s) ∨
        ∃ out, PayloadSubstituted task dependencies out ∧ maxBytes < (PyValue.dict out).jsonSize) ∧
    ∀ others : List PlannedTask, (∀ id ∈ task.dependsOn, resultOf dependencies id = resultOf others id) →
      resolvePayload task dependencies maxBytes = resolvePayload task others maxBytes := by
  refine ⟨resolvePayload_ok_iff hpayload hresults, fun e h => (resolvePayload_error hpayload hresults h).1, ⟨?_, ?_⟩,
    fun others h => resolvePayload_congr h maxBytes⟩
  · rintro ⟨e, h⟩
    exact (resolvePayload_error hpayload hresults h).2
  · intro h
    cases hout : resolvePayload task dependencies maxBytes with
    | error e => exact ⟨e, rfl⟩
    | ok out =>
      obtain ⟨hsubstituted, hsize⟩ := (resolvePayload_ok_iff hpayload hresults out).mp hout
      exfalso
      rcases h with ⟨s, hoccurs, hbad⟩ | ⟨out', hout', hsize'⟩
      · exact SubstitutedItems.denoted hsubstituted hoccurs hbad
      · rw [hsubstituted.unique hout'] at hsize
        omega

end Payload

/-- A complete task. -/
def upstream : PlannedTask where
  taskId := 7
  projectId := 1
  goalId := 2
  skill := "up"
  payload := []
  status := .complete
  result := some [("artifact", .dict [("path", .str "build/output.py")])]

/-- A task that reads a path of the result of the first one. -/
def downstream : PlannedTask where
  taskId := 8
  projectId := 1
  goalId := 2
  skill := "down"
  payload := [("nested", .list [.dict [("path", .str
    "$\x7b\x7b dependencies.00000000-0000-0000-0000-000000000007.result.artifact.path \x7d\x7d")]])]
  dependsOn := [7]

theorem downstream_resolves :
    PyValue.serializableItems downstream.payload = true ∧
    (∀ id ∈ downstream.dependsOn, ∀ result, resultOf [upstream] id = some result →
      PyValue.serializableItems result = true) ∧
    PayloadSubstituted downstream [upstream] [("nested", .list [.dict [("path", .str "build/output.py")]])] ∧
    resolvePayload downstream [upstream] 65536 = resolvePayload downstream [downstream, upstream] 65536 := by
  have hpayload : PyValue.serializableItems downstream.payload = true := by decide
  have hresults : ∀ id ∈ downstream.dependsOn, ∀ result, resultOf [upstream] id = some result →
      PyValue.serializableItems result = true := by
    intro id hid result hresult
    rw [List.mem_singleton.mp hid] at hresult
    rw [← Option.some.inj (show some _ = some result from hresult)]
    decide
  have hspec := resolvePayload_spec downstream [upstream] 65536 hpayload hresults
  refine ⟨hpayload, hresults, ((hspec.1 _).mp ?_).1, hspec.2.2.2 [downstream, upstream] ?_⟩
  · decide +kernel
  · intro id hid
    rw [List.mem_singleton.mp hid]
    rfl

end Galaxz
