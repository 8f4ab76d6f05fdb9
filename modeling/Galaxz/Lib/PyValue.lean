import Galaxz.Lib.PyFloat

/-!
# Python values

The values that travel through `json.dumps` and `json.loads`: agent results, payloads and dependency
results. A `dict` is the list of its items in insertion order. A text that `json.dumps` wrote with
`sort_keys=True` is represented by the value it denotes, with the items of every `dict` sorted by key:
two such texts are equal exactly when these values are.
-/

namespace Galaxz

/-- A Python value. `other` is an object that no JSON serialiser accepts. -/
inductive PyValue where
  | none
  | bool (b : Bool)
  | int (n : ℤ)
  | float (x : PyFloat)
  | str (s : String)
  | list (xs : List PyValue)
  | dict (items : List (String × PyValue))
  | other
deriving Inhabited

/-- The items of a `dict`. -/
abbrev PyDict := List (String × PyValue)

namespace PyValue

mutual

/-- Equality of values is decidable. -/
def decEq : (a b : PyValue) → Decidable (a = b)
  | .none, b => by cases b <;> first | exact isTrue rfl | exact isFalse (by intro h; cases h)
  | .other, b => by cases b <;> first | exact isTrue rfl | exact isFalse (by intro h; cases h)
  | .bool x, b => match b with
    | .bool y => if h : x = y then isTrue (by rw [h]) else isFalse (by intro e; cases e; exact h rfl)
    | .none | .int _ | .float _ | .str _ | .list _ | .dict _ | .other => isFalse (by intro h; cases h)
  | .int x, b => match b with
    | .int y => if h : x = y then isTrue (by rw [h]) else isFalse (by intro e; cases e; exact h rfl)
    | .none | .bool _ | .float _ | .str _ | .list _ | .dict _ | .other => isFalse (by intro h; cases h)
  | .float x, b => match b with
    | .float y => if h : x = y then isTrue (by rw [h]) else isFalse (by intro e; cases e; exact h rfl)
    | .none | .bool _ | .int _ | .str _ | .list _ | .dict _ | .other => isFalse (by intro h; cases h)
  | .str x, b => match b with
    | .str y => if h : x = y then isTrue (by rw [h]) else isFalse (by intro e; cases e; exact h rfl)
    | .none | .bool _ | .int _ | .float _ | .list _ | .dict _ | .other => isFalse (by intro h; cases h)
  | .list xs, b => match b with
    | .list ys => match decEqList xs ys with
      | isTrue h => isTrue (by rw [h])
      | isFalse h => isFalse (by intro e; cases e; exact h rfl)
    | .none | .bool _ | .int _ | .float _ | .str _ | .dict _ | .other => isFalse (by intro h; cases h)
  | .dict xs, b => match b with
    | .dict ys => match decEqItems xs ys with
      | isTrue h => isTrue (by rw [h])
      | isFalse h => isFalse (by intro e; cases e; exact h rfl)
    | .none | .bool _ | .int _ | .float _ | .str _ | .list _ | .other => isFalse (by intro h; cases h)

/-- Equality of lists of values is decidable. -/
def decEqList : (xs ys : List PyValue) → Decidable (xs = ys)
  | [], [] => isTrue rfl
  | [], _ :: _ => isFalse (by intro h; cases h)
  | _ :: _, [] => isFalse (by intro h; cases h)
  | x :: xs, y :: ys => match decEq x y, decEqList xs ys with
    | isTrue h, isTrue t => isTrue (by rw [h, t])
    | isFalse h, _ => isFalse (by intro e; cases e; exact h rfl)
    | _, isFalse t => isFalse (by intro e; cases e; exact t rfl)

/-- Equality of lists of items is decidable. -/
def decEqItems : (xs ys : List (String × PyValue)) → Decidable (xs = ys)
  | [], [] => isTrue rfl
  | [], _ :: _ => isFalse (by intro h; cases h)
  | _ :: _, [] => isFalse (by intro h; cases h)
  | (k, x) :: xs, (l, y) :: ys =>
    if hk : k = l then
      match decEq x y, decEqItems xs ys with
      | isTrue h, isTrue t => isTrue (by rw [hk, h, t])
      | isFalse h, _ => isFalse (by intro e; cases e; exact h rfl)
      | _, isFalse t => isFalse (by intro e; cases e; exact t rfl)
    else isFalse (by intro e; cases e; exact hk rfl)

end

instance : DecidableEq PyValue := decEq

/-- `bool(value)`. -/
def truthy : PyValue → Bool
  | .none => false
  | .bool b => b
  | .int n => n ≠ 0
  | .float (.finite q) => q ≠ 0
  | .float _ => true
  | .str s => s ≠ ""
  | .list xs => !xs.isEmpty
  | .dict items => !items.isEmpty
  | .other => true

/-- `value or default`. -/
def orElse (v default : PyValue) : PyValue := if v.truthy then v else default

mutual

/-- No JSON serialiser rejects the value. -/
def serializable : PyValue → Bool
  | .list xs => serializableList xs
  | .dict items => serializableItems items
  | .other => false
  | _ => true

/-- The same, for the elements of a list. -/
def serializableList : List PyValue → Bool
  | [] => true
  | x :: xs => serializable x && serializableList xs

/-- The same, for the items of a `dict`. -/
def serializableItems : List (String × PyValue) → Bool
  | [] => true
  | (_, x) :: xs => serializable x && serializableItems xs

end

/-- The number that a value is, for a comparison. -/
def number : PyValue → Option PyFloat
  | .bool b => some (.finite (if b then 1 else 0))
  | .int n => some (.finite n)
  | .float x => some x
  | _ => Option.none

/-- `x == y` for numbers; `nan` is not equal to itself. -/
def sameNumber (x y : PyFloat) : Bool := x = y && x ≠ .nan

mutual

/-- `a == b` for values that are not the same object. -/
def pyEq : PyValue → PyValue → Bool
  | .none, b => b = .none
  | .str s, b => b = .str s
  | .list xs, b => match b with
    | .list ys => pyEqList xs ys
    | _ => false
  | .dict xs, b => match b with
    | .dict ys => xs.length = ys.length && pyEqItems xs ys
    | _ => false
  | .bool x, b => b.number.any (sameNumber (.finite (if x then 1 else 0)))
  | .int n, b => b.number.any (sameNumber (.finite n))
  | .float x, b => b.number.any (sameNumber x)
  | .other, _ => false

/-- The same, for the elements of lists. -/
def pyEqList : List PyValue → List PyValue → Bool
  | [], ys => ys.isEmpty
  | x :: xs, ys => match ys with
    | [] => false
    | y :: ys => pyEq x y && pyEqList xs ys

/-- Every item has an equal one under its key. -/
def pyEqItems : List (String × PyValue) → List (String × PyValue) → Bool
  | [], _ => true
  | (k, x) :: xs, ys => (match ys.lookup k with
    | Option.none => false
    | some y => pyEq x y) && pyEqItems xs ys

end

/-- Insert an item before the first larger key. -/
def insertItem (item : String × PyValue) : List (String × PyValue) → List (String × PyValue)
  | [] => [item]
  | x :: xs => if item.1 ≤ x.1 then item :: x :: xs else x :: insertItem item xs

mutual

/-- The value with the items of every `dict` in it sorted by key. -/
def sortKeys : PyValue → PyValue
  | .list xs => .list (sortKeysList xs)
  | .dict items => .dict (sortKeysItems items)
  | v => v

/-- The same, for the elements of a list. -/
def sortKeysList : List PyValue → List PyValue
  | [] => []
  | x :: xs => sortKeys x :: sortKeysList xs

/-- The same, for the items of a `dict`. -/
def sortKeysItems : List (String × PyValue) → List (String × PyValue)
  | [] => []
  | (k, x) :: xs => insertItem (k, sortKeys x) (sortKeysItems xs)

end

end PyValue

namespace PyDict

/-- `items.get(key)`. -/
def get (items : PyDict) (key : String) : PyValue := (items.lookup key).getD .none

/-- `{**items, key: value}`. -/
def set (items : PyDict) (key : String) (value : PyValue) : PyDict :=
  if items.any (·.1 = key) then items.map fun item => if item.1 = key then (key, value) else item
  else items ++ [(key, value)]

/-- `json.dumps(items, sort_keys=True)`, the text by the value it denotes. -/
def dumps (items : PyDict) : Except PyError PyDict :=
  if PyValue.serializableItems items then .ok (PyValue.sortKeysItems items)
  else .error (.typeError "Object is not JSON serializable")

end PyDict

theorem PyDict.get_set (items : PyDict) (key : String) (value : PyValue) :
    (items.set key value).get key = value := by
  have hlookup : ∀ xs : PyDict, xs.any (·.1 = key) = true →
      (xs.map fun item => if item.1 = key then (key, value) else item).lookup key = some value := by
    intro xs
    induction xs with
    | nil => intro h; cases h
    | cons x xs ih =>
      intro h
      rw [List.map_cons, List.lookup_cons]
      by_cases hx : x.1 = key
      · simp [hx]
      · have hne : (key == x.1) = false := beq_eq_false_iff_ne.mpr (Ne.symm hx)
        simp only [if_neg hx, hne]
        exact ih (by simpa [hx] using h)
  have happend : ∀ xs : PyDict, ¬ xs.any (·.1 = key) = true →
      (xs ++ [(key, value)]).lookup key = some value := by
    intro xs h
    rw [List.lookup_append, List.lookup_eq_none_iff.mpr]
    · simp
    · intro x hx
      rw [bne_iff_ne]
      intro e
      exact h (List.any_eq_true.mpr ⟨x, hx, by simp [e]⟩)
  unfold PyDict.get PyDict.set
  split_ifs with h
  · rw [hlookup items h]
    rfl
  · rw [happend items h]
    rfl

/-- Inserting in sorted order finds the same under every key as putting the item in front: what it
passes has a smaller key. -/
theorem PyValue.lookup_insertItem (key : String) (item : String × PyValue)
    (xs : List (String × PyValue)) :
    (PyValue.insertItem item xs).lookup key = (item :: xs).lookup key := by
  induction xs with
  | nil => rfl
  | cons x xs ih =>
    unfold PyValue.insertItem
    split_ifs with h
    · rfl
    · have hne : item.1 ≠ x.1 := fun e => h (e ▸ String.le_refl _)
      rw [List.lookup_cons, ih, List.lookup_cons, List.lookup_cons, List.lookup_cons]
      by_cases hx : key = x.1
      · have hi : (key == item.1) = false := beq_eq_false_iff_ne.mpr fun e => hne (e.symm.trans hx)
        have hx' : (key == x.1) = true := beq_iff_eq.mpr hx
        simp only [hi, hx']
      · have hx' : (key == x.1) = false := beq_eq_false_iff_ne.mpr hx
        simp only [hx']

/-- What a key finds after serialisation is what it found before, with its own keys sorted. -/
theorem PyValue.lookup_sortKeysItems (key : String) (items : List (String × PyValue)) :
    (PyValue.sortKeysItems items).lookup key = (items.lookup key).map PyValue.sortKeys := by
  induction items with
  | nil => simp [PyValue.sortKeysItems]
  | cons x xs ih =>
    obtain ⟨k, v⟩ := x
    rw [PyValue.sortKeysItems, PyValue.lookup_insertItem, List.lookup_cons, List.lookup_cons]
    by_cases h : key = k
    · simp [h]
    · have h' : (key == k) = false := beq_eq_false_iff_ne.mpr h
      simp [h', ih]

/-- Sorting keys does not empty anything. -/
theorem PyValue.insertItem_ne_nil (item : String × PyValue) (xs : List (String × PyValue)) :
    PyValue.insertItem item xs ≠ [] := by
  cases xs with
  | nil => simp [PyValue.insertItem]
  | cons x xs =>
    unfold PyValue.insertItem
    split_ifs <;> simp

/-- Serialisation keeps the truth value. -/
theorem PyValue.truthy_sortKeys (v : PyValue) : v.sortKeys.truthy = v.truthy := by
  cases v with
  | list xs => cases xs <;> simp [PyValue.sortKeys, PyValue.sortKeysList, PyValue.truthy]
  | dict items =>
    cases items with
    | nil => simp [PyValue.sortKeys, PyValue.sortKeysItems, PyValue.truthy]
    | cons x xs =>
      have h := PyValue.insertItem_ne_nil (x.1, x.2.sortKeys) (PyValue.sortKeysItems xs)
      simpa [PyValue.sortKeys, PyValue.sortKeysItems, PyValue.truthy] using h
  | none => rfl
  | bool b => rfl
  | int n => rfl
  | float x => rfl
  | str s => rfl
  | other => rfl

/-- Serialisation keeps a string and makes none. -/
theorem PyValue.sortKeys_eq_str_iff (v : PyValue) (s : String) : v.sortKeys = .str s ↔ v = .str s := by
  cases v <;> simp [PyValue.sortKeys]

/-- Serialisation makes no `dict` of anything else. -/
theorem PyValue.sortKeys_eq_dict {v : PyValue} {items : PyDict} (h : v.sortKeys = .dict items) :
    ∃ inner, v = .dict inner ∧ items = PyValue.sortKeysItems inner := by
  cases v with
  | dict inner => exact ⟨inner, rfl, (PyValue.dict.inj h).symm⟩
  | _ => simp [PyValue.sortKeys] at h

/-- What `get` finds after serialisation. -/
theorem PyDict.get_sortKeysItems (items : PyDict) (key : String) :
    PyDict.get (PyValue.sortKeysItems items) key = (items.get key).sortKeys := by
  unfold PyDict.get
  rw [PyValue.lookup_sortKeysItems]
  cases items.lookup key with
  | none => rfl
  | some v => rfl

/-- Setting a key leaves what every other key finds. -/
theorem PyDict.get_set_ne {items : PyDict} {key other : String} (h : other ≠ key) (value : PyValue) :
    (items.set key value).get other = items.get other := by
  have hne : (other == key) = false := beq_eq_false_iff_ne.mpr h
  have hmap : ∀ xs : PyDict,
      (xs.map fun item => if item.1 = key then (key, value) else item).lookup other = xs.lookup other := by
    intro xs
    induction xs with
    | nil => rfl
    | cons x xs ih =>
      rw [List.map_cons, List.lookup_cons, List.lookup_cons, ih]
      by_cases hx : x.1 = key
      · rw [if_pos hx, hx]
        simp only [hne]
      · rw [if_neg hx]
  unfold PyDict.get PyDict.set
  split_ifs
  · rw [hmap]
  · rw [List.lookup_append]
    simp [List.lookup_cons, hne]

end Galaxz
