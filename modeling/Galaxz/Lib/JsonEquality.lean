import Galaxz.Lib.JsonWriter

/-!
# Equality of JSON values

`==` on what `json.loads` returns does not look at the order of a `dict`. So a value is equal to itself with its keys
sorted, which is what `json.dumps(value, sort_keys=True)` writes.
-/

namespace Galaxz.JsonValue

/-- The number that a value is, if it is one: `True` and `False` are `1` and `0`. -/
def number? : JsonValue → Option PyFloat
  | .bool b => some (.finite (if b then 1 else 0))
  | .int n => some (.finite n)
  | .float x => some x
  | _ => none

/-- A number is equal to a value: `nan` is equal to nothing. -/
def numberEq (x : PyFloat) (b : JsonValue) : Bool := x ≠ .nan && number? b = some x

def isNan : JsonValue → Bool
  | .float .nan => true
  | _ => false

section Eq

-- all `nan` are one object, and the parts of a container are compared by identity first
variable (sameNan : Bool)

mutual

/-- `a == b`. -/
def pyEq : JsonValue → JsonValue → Bool
  | .null, b => b = .null
  | .bool x, b => numberEq (.finite (if x then 1 else 0)) b
  | .int n, b => numberEq (.finite n) b
  | .float x, b => numberEq x b
  | .str s, b => b = .str s
  | .arr xs, b => match b with
    | .arr ys => pyEqList xs ys
    | _ => false
  | .obj items, b => match b with
    | .obj others => items.length = others.length && pyEqItems items others
    | _ => false

/-- The same, for lists. -/
def pyEqList : List JsonValue → List JsonValue → Bool
  | [], ys => ys.isEmpty
  | x :: xs, ys => match ys with
    | y :: ys => (sameNan && (isNan x && isNan y) || pyEq x y) && pyEqList xs ys
    | [] => false

/-- Every key of the one `dict` has an equal value in the other. -/
def pyEqItems : List (CodeString × JsonValue) → List (CodeString × JsonValue) → Bool
  | [], _ => true
  | (k, x) :: items, others =>
    (match others.lookup k with
      | some y => sameNan && (isNan x && isNan y) || pyEq x y
      | none => false) && pyEqItems items others

end

end Eq

mutual

/-- The value with the keys of every `dict` in it sorted. -/
def sortKeys : JsonValue → JsonValue
  | .arr xs => .arr (sortKeysList xs)
  | .obj items => .obj ((sortKeysItems items).insertionSort fun a b => a.1 ≤ b.1)
  | v => v

/-- The same, for the elements of a list. -/
def sortKeysList : List JsonValue → List JsonValue
  | [] => []
  | x :: xs => sortKeys x :: sortKeysList xs

/-- The same, for the values of a `dict`. -/
def sortKeysItems : List (CodeString × JsonValue) → List (CodeString × JsonValue)
  | [] => []
  | (k, x) :: items => (k, sortKeys x) :: sortKeysItems items

end

/-! ## The parts of a value -/

theorem allItems_iff {p : JsonValue → Prop} {items : List (CodeString × JsonValue)} :
    AllItems p items ↔ ∀ e ∈ items, All p e.2 := by
  induction items with
  | nil => simp [AllItems]
  | cons e items ih => rw [AllItems, ih, List.forall_mem_cons]

theorem sortKeysItems_eq (items : List (CodeString × JsonValue)) :
    sortKeysItems items = items.map fun e => (e.1, sortKeys e.2) := by
  induction items with
  | nil => rfl
  | cons e items ih => rw [sortKeysItems, ih, List.map_cons]

/-- The items of a `dict`, sorted by their keys. -/
abbrev sortedItems (items : List (CodeString × JsonValue)) : List (CodeString × JsonValue) :=
  (sortKeysItems items).insertionSort fun a b => a.1 ≤ b.1

theorem mem_sortedItems {items : List (CodeString × JsonValue)} {e : CodeString × JsonValue} :
    e ∈ sortedItems items ↔ ∃ d ∈ items, (d.1, sortKeys d.2) = e := by
  rw [(List.perm_insertionSort _ (sortKeysItems items)).mem_iff, sortKeysItems_eq, List.mem_map]

theorem keys_sortedItems (items : List (CodeString × JsonValue)) :
    ((sortedItems items).map (·.1)).Perm (items.map (·.1)) := by
  have hperm := (List.perm_insertionSort (fun a b : CodeString × JsonValue => a.1 ≤ b.1) (sortKeysItems items)).map (·.1)
  have hkeys : (sortKeysItems items).map (·.1) = items.map (·.1) := by
    rw [sortKeysItems_eq, List.map_map]
    rfl
  rwa [hkeys] at hperm

/-- With no key twice, an item is the one that its key finds. -/
theorem lookup_of_mem {items : List (CodeString × JsonValue)} (h : (items.map (·.1)).Nodup) {k : CodeString}
    {x : JsonValue} (hmem : (k, x) ∈ items) : items.lookup k = some x := by
  induction items with
  | nil => cases hmem
  | cons e items ih =>
    rw [List.map_cons, List.nodup_cons] at h
    obtain ⟨l, y⟩ := e
    rcases List.mem_cons.mp hmem with heq | htail
    · cases heq
      rw [List.lookup_cons_self]
    · have hne : k ≠ l := by
        rintro rfl
        exact h.1 (List.mem_map.mpr ⟨(k, x), htail, rfl⟩)
      have hbeq : (k == l) = false := by simpa using hne
      rw [List.lookup_cons, hbeq]
      exact ih h.2 htail

/-- A property that does not look into the parts, and not at the order of the keys. -/
structure IsShallow (p : JsonValue → Prop) : Prop where
  arr : ∀ {xs ys}, p (.arr xs) → p (.arr ys)
  obj : ∀ {items others : List (CodeString × JsonValue)}, (others.map (·.1)).Perm (items.map (·.1)) →
    p (.obj items) → p (.obj others)

section Sorted

variable {p : JsonValue → Prop}

mutual

theorem all_sortKeys (hp : IsShallow p) : ∀ v : JsonValue, v.All p → v.sortKeys.All p
  | .null, h => h
  | .bool _, h => h
  | .int _, h => h
  | .float _, h => h
  | .str _, h => h
  | .arr xs, h => ⟨hp.arr h.1, allList_sortKeys hp xs h.2⟩
  | .obj items, h => by
    refine ⟨hp.obj (keys_sortedItems items) h.1, allItems_iff.mpr fun e he => ?_⟩
    exact allItems_iff.mp (allItems_sortKeys hp items h.2) e ((List.perm_insertionSort _ _).mem_iff.mp he)

theorem allList_sortKeys (hp : IsShallow p) : ∀ xs : List JsonValue, AllList p xs → AllList p (sortKeysList xs)
  | [], h => h
  | x :: xs, h => ⟨all_sortKeys hp x h.1, allList_sortKeys hp xs h.2⟩

theorem allItems_sortKeys (hp : IsShallow p) : ∀ items : List (CodeString × JsonValue), AllItems p items →
    AllItems p (sortKeysItems items)
  | [], h => h
  | (_, x) :: items, h => ⟨all_sortKeys hp x h.1, allItems_sortKeys hp items h.2⟩

end

end Sorted

theorem isShallow_plain : IsShallow IsPlainNode where
  arr _ := trivial
  obj := by
    intro items others hperm h
    refine ⟨hperm.nodup_iff.mpr h.1, fun e he => ?_⟩
    obtain ⟨d, hd, hkey⟩ := List.mem_map.mp (hperm.mem_iff.mp (List.mem_map_of_mem he))
    exact hkey ▸ h.2 d hd

theorem isShallow_short : IsShallow IsShortNode where
  arr _ := trivial
  obj _ _ := trivial

/-! ## A value and its sorted form -/

theorem pyEqItems_iff {sameNan : Bool} {items others : List (CodeString × JsonValue)} :
    pyEqItems sameNan items others = true ↔ ∀ e ∈ items, ∃ y, others.lookup e.1 = some y ∧
      (sameNan && (isNan e.2 && isNan y) || pyEq sameNan e.2 y) = true := by
  induction items with
  | nil => simp [pyEqItems]
  | cons e items ih =>
    obtain ⟨k, x⟩ := e
    rw [pyEqItems, Bool.and_eq_true, ih, List.forall_mem_cons]
    refine and_congr_left fun _ => ?_
    cases others.lookup k with
    | none => simp
    | some y => simp

section SortKeys

variable (sameNan : Bool)

theorem pyEq_number {x : PyFloat} {v : JsonValue} (hx : x ≠ .nan) (hv : number? v = some x) : numberEq x v = true := by
  unfold numberEq
  simp [hx, hv]

mutual

/-- A value without `nan` is equal to its sorted form, on either side. -/
theorem pyEq_sortKeys : ∀ v : JsonValue, v.IsPlain →
    pyEq sameNan v v.sortKeys = true ∧ pyEq sameNan v.sortKeys v = true
  | .null, _ => ⟨rfl, rfl⟩
  | .bool _, _ => ⟨pyEq_number nofun rfl, pyEq_number nofun rfl⟩
  | .int _, _ => ⟨pyEq_number nofun rfl, pyEq_number nofun rfl⟩
  | .float x, h => by
    obtain ⟨q, rfl, -⟩ := h
    exact ⟨pyEq_number nofun rfl, pyEq_number nofun rfl⟩
  | .str s, _ => ⟨decide_eq_true rfl, decide_eq_true rfl⟩
  | .arr xs, h => pyEq_sortKeysList xs h.2
  | .obj items, h => by
    obtain ⟨⟨hnodup, -⟩, hvalues⟩ := h
    have hequal := pyEq_sortKeysItems items hvalues
    have hsorted : ((sortedItems items).map (·.1)).Nodup := (keys_sortedItems items).nodup_iff.mpr hnodup
    have hlength : (sortedItems items).length = items.length := by
      rw [List.length_insertionSort, sortKeysItems_eq, List.length_map]
    constructor
    · show (decide (items.length = (sortedItems items).length) && pyEqItems sameNan items (sortedItems items)) = true
      rw [hlength, decide_eq_true rfl, Bool.true_and, pyEqItems_iff]
      intro e he
      have hmem : (e.1, sortKeys e.2) ∈ sortedItems items := mem_sortedItems.mpr ⟨e, he, rfl⟩
      refine ⟨sortKeys e.2, lookup_of_mem hsorted hmem, ?_⟩
      rw [(hequal e he).1, Bool.or_true]
    · show (decide ((sortedItems items).length = items.length) && pyEqItems sameNan (sortedItems items) items) = true
      rw [hlength, decide_eq_true rfl, Bool.true_and, pyEqItems_iff]
      intro e he
      obtain ⟨d, hd, rfl⟩ := mem_sortedItems.mp he
      refine ⟨d.2, lookup_of_mem hnodup hd, ?_⟩
      rw [(hequal d hd).2, Bool.or_true]

theorem pyEq_sortKeysList : ∀ xs : List JsonValue, AllList IsPlainNode xs →
    pyEqList sameNan xs (sortKeysList xs) = true ∧ pyEqList sameNan (sortKeysList xs) xs = true
  | [], _ => ⟨rfl, rfl⟩
  | x :: xs, h => by
    obtain ⟨hleft, hright⟩ := pyEq_sortKeys x h.1
    obtain ⟨hlefts, hrights⟩ := pyEq_sortKeysList xs h.2
    rw [sortKeysList, pyEqList, pyEqList, hleft, hright, hlefts, hrights, Bool.or_true, Bool.or_true]
    exact ⟨rfl, rfl⟩

theorem pyEq_sortKeysItems : ∀ items : List (CodeString × JsonValue), AllItems IsPlainNode items →
    ∀ e ∈ items, pyEq sameNan e.2 e.2.sortKeys = true ∧ pyEq sameNan e.2.sortKeys e.2 = true
  | [], _, e, he => absurd he List.not_mem_nil
  | (k, x) :: items, h, e, he => by
    rcases List.mem_cons.mp he with rfl | he
    · exact pyEq_sortKeys x h.1
    · exact pyEq_sortKeysItems items h.2 e he

end

end SortKeys

end Galaxz.JsonValue
