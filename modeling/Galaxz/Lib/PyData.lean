import Galaxz.Lib.NumberText
import Galaxz.Lib.PyValue

/-!
# Python objects and JSON

What `json.dumps` accepts is more than what `json.loads` returns: a `dict` may have keys that are no
strings, which become strings, and a tuple becomes a list. A value that JSON keeps is equal to what is
read back, and only such a value is.
-/

namespace Galaxz

/-- A key of a `dict`. Any other hashable object is `other`. -/
inductive PyKey where
  | str (s : String)
  | int (n : ℤ)
  | float (x : PyFloat)
  | bool (b : Bool)
  | none
  | other
deriving DecidableEq

/-- A Python object, as far as `json.dumps` tells them apart. -/
inductive PyData where
  | none
  | bool (b : Bool)
  | int (n : ℤ)
  | float (x : PyFloat)
  | str (s : String)
  | list (xs : List PyData)
  | tuple (xs : List PyData)
  | dict (items : List (PyKey × PyData))
  | other

namespace PyKey

/-- The number that a key is, for a comparison. -/
def number : PyKey → Option PyFloat
  | .bool b => some (.finite (if b then 1 else 0))
  | .int n => some (.finite n)
  | .float x => some x
  | _ => Option.none

/-- `k == k'` for keys that are not the same object. -/
def pyEq : PyKey → PyKey → Bool
  | .str s, k => k = .str s
  | .none, k => k = .none
  | .other, _ => false
  | .bool b, k => k.number.any (PyValue.sameNumber (.finite (if b then 1 else 0)))
  | .int n, k => k.number.any (PyValue.sameNumber (.finite n))
  | .float x, k => k.number.any (PyValue.sameNumber x)

/-- The text that `json.dumps` writes for a key, if it takes it. -/
def jsonText : PyKey → Option String
  | .str s => some s
  | .int n => some (String.ofList (intText n))
  | .float x => some (String.ofList x.reprText)
  | .bool b => some (if b then "true" else "false")
  | .none => some "null"
  | .other => Option.none

/-- The key is a string. -/
def isStr : PyKey → Bool
  | .str _ => true
  | _ => false

theorem isStr_iff {k : PyKey} : k.isStr = true ↔ ∃ s, k = .str s := by
  cases k <;> simp [isStr]

/-- A key that equals a string is that string. -/
theorem pyEq_str {k : PyKey} {s : String} : k.pyEq (.str s) = true ↔ k = .str s := by
  cases k <;> simp [pyEq, number, eq_comm]

end PyKey

namespace PyData

/-- The number that a value is, for a comparison. -/
def number : PyData → Option PyFloat
  | .bool b => some (.finite (if b then 1 else 0))
  | .int n => some (.finite n)
  | .float x => some x
  | _ => Option.none

/-- `items[key]`. -/
def lookup (key : PyKey) (items : List (PyKey × PyData)) : Option PyData :=
  (items.find? fun item => key.pyEq item.1).map (·.2)

/-- `items[key] = value`. -/
def setItem (key : PyKey) (value : PyData) : List (PyKey × PyData) → List (PyKey × PyData)
  | [] => [(key, value)]
  | (k, x) :: items => if k.pyEq key then (k, value) :: items else (k, x) :: setItem key value items

/-- `dict(pairs)`: a repeated key has its last value. -/
def ofPairs (pairs : List (PyKey × PyData)) : List (PyKey × PyData) :=
  pairs.foldl (fun items p => setItem p.1 p.2 items) []

mutual

/-- `a == b` for values that are not the same object. -/
def pyEq : PyData → PyData → Bool
  | .none, b => match b with
    | .none => true
    | _ => false
  | .str s, b => match b with
    | .str t => s = t
    | _ => false
  | .list xs, b => match b with
    | .list ys => pyEqList xs ys
    | _ => false
  | .tuple xs, b => match b with
    | .tuple ys => pyEqList xs ys
    | _ => false
  | .dict xs, b => match b with
    | .dict ys => xs.length = ys.length && pyEqItems xs ys
    | _ => false
  | .bool x, b => b.number.any (PyValue.sameNumber (.finite (if x then 1 else 0)))
  | .int n, b => b.number.any (PyValue.sameNumber (.finite n))
  | .float x, b => b.number.any (PyValue.sameNumber x)
  | .other, _ => false

/-- The same, for the elements of lists. -/
def pyEqList : List PyData → List PyData → Bool
  | [], ys => ys.isEmpty
  | x :: xs, ys => match ys with
    | [] => false
    | y :: ys => pyEq x y && pyEqList xs ys

/-- Every item has an equal one under its key. -/
def pyEqItems : List (PyKey × PyData) → List (PyKey × PyData) → Bool
  | [], _ => true
  | (k, x) :: xs, ys => (lookup k ys).any (pyEq x) && pyEqItems xs ys

end

mutual

/-- `json.dumps(value)`, the text by its syntax, in which a key may be repeated; `none` where it raises. -/
def dumps : PyData → Option PyValue
  | .none => some .none
  | .bool b => some (.bool b)
  | .int n => some (.int n)
  | .float x => some (.float x)
  | .str s => some (.str s)
  | .list xs => (dumpsList xs).map .list
  | .tuple xs => (dumpsList xs).map .list
  | .dict items => (dumpsItems items).map .dict
  | .other => Option.none

/-- The same, for the elements of a list. -/
def dumpsList : List PyData → Option (List PyValue)
  | [] => some []
  | x :: xs => do
    let v ← dumps x
    let vs ← dumpsList xs
    return v :: vs

/-- The same, for the items of a `dict`. -/
def dumpsItems : List (PyKey × PyData) → Option (List (String × PyValue))
  | [] => some []
  | (k, x) :: xs => do
    let key ← k.jsonText
    let v ← dumps x
    let vs ← dumpsItems xs
    return (key, v) :: vs

end

mutual

/-- `json.loads(text)`. -/
def loads : PyValue → PyData
  | .none => .none
  | .bool b => .bool b
  | .int n => .int n
  | .float x => .float x
  | .str s => .str s
  | .list xs => .list (loadsList xs)
  | .dict items => .dict (ofPairs (loadsItems items))
  | .other => .other

/-- The same, for the elements of a list. -/
def loadsList : List PyValue → List PyData
  | [] => []
  | x :: xs => loads x :: loadsList xs

/-- The same, for the pairs of an object. -/
def loadsItems : List (String × PyValue) → List (PyKey × PyData)
  | [] => []
  | (k, x) :: xs => (.str k, loads x) :: loadsItems xs

end

mutual

/-- No two keys of a `dict` are equal. -/
def wellFormed : PyData → Bool
  | .list xs => wellFormedList xs
  | .tuple xs => wellFormedList xs
  | .dict items => wellFormedItems items
  | _ => true

/-- The same, for the elements of a list. -/
def wellFormedList : List PyData → Bool
  | [] => true
  | x :: xs => wellFormed x && wellFormedList xs

/-- The same, for the items of a `dict`. -/
def wellFormedItems : List (PyKey × PyData) → Bool
  | [] => true
  | (k, x) :: xs => xs.all (fun item => !k.pyEq item.1) && (wellFormed x && wellFormedItems xs)

end

mutual

/-- JSON keeps the value: its keys are strings, and it has neither a tuple nor a `nan` in it. -/
def survives : PyData → Bool
  | .float x => x ≠ .nan
  | .list xs => survivesList xs
  | .tuple _ => false
  | .dict items => survivesItems items
  | .other => false
  | _ => true

/-- The same, for the elements of a list. -/
def survivesList : List PyData → Bool
  | [] => true
  | x :: xs => survives x && survivesList xs

/-- The same, for the items of a `dict`. -/
def survivesItems : List (PyKey × PyData) → Bool
  | [] => true
  | (k, x) :: xs => k.isStr && (survives x && survivesItems xs)

end

/-! ## What JSON keeps -/

theorem pyEqItems_iff {xs ys : List (PyKey × PyData)} :
    pyEqItems xs ys = true ↔ ∀ p ∈ xs, (lookup p.1 ys).any (pyEq p.2) = true := by
  induction xs with
  | nil => simp [pyEqItems]
  | cons p xs ih =>
    obtain ⟨k, x⟩ := p
    rw [pyEqItems, Bool.and_eq_true, ih, List.forall_mem_cons]

theorem survivesItems_iff {xs : List (PyKey × PyData)} :
    survivesItems xs = true ↔ ∀ p ∈ xs, p.1.isStr = true ∧ survives p.2 = true := by
  induction xs with
  | nil => simp [survivesItems]
  | cons p xs ih =>
    obtain ⟨k, x⟩ := p
    rw [survivesItems, Bool.and_eq_true, Bool.and_eq_true, ih, List.forall_mem_cons, and_assoc]

theorem wellFormedItems_pairwise {xs : List (PyKey × PyData)} (h : wellFormedItems xs = true) :
    xs.Pairwise fun p q => p.1.pyEq q.1 = false := by
  induction xs with
  | nil => exact List.Pairwise.nil
  | cons p xs ih =>
    obtain ⟨k, x⟩ := p
    rw [wellFormedItems, Bool.and_eq_true, Bool.and_eq_true, List.all_eq_true] at h
    exact List.Pairwise.cons (fun q hq => by simpa using h.1 q hq) (ih h.2.2)

theorem loadsItems_eq_map (pairs : List (String × PyValue)) :
    loadsItems pairs = pairs.map fun q => (.str q.1, loads q.2) := by
  induction pairs with
  | nil => rfl
  | cons q pairs ih =>
    obtain ⟨k, v⟩ := q
    rw [loadsItems, ih, List.map_cons]

/-- What holds of the keys and of the values of pairs holds of those of their `dict`. -/
theorem forall_setItem {P : PyKey → Prop} {Q : PyData → Prop} {key : PyKey} {value : PyData}
    {items : List (PyKey × PyData)} (hkey : P key) (hvalue : Q value)
    (h : ∀ p ∈ items, P p.1 ∧ Q p.2) : ∀ p ∈ setItem key value items, P p.1 ∧ Q p.2 := by
  induction items with
  | nil =>
    intro p hp
    rw [List.mem_singleton.mp hp]
    exact ⟨hkey, hvalue⟩
  | cons q items ih =>
    obtain ⟨hq, hitems⟩ := List.forall_mem_cons.mp h
    unfold setItem
    split_ifs
    · exact List.forall_mem_cons.mpr ⟨⟨hq.1, hvalue⟩, hitems⟩
    · exact List.forall_mem_cons.mpr ⟨hq, ih hitems⟩

theorem forall_foldl_setItem {P : PyKey → Prop} {Q : PyData → Prop} (pairs : List (PyKey × PyData))
    {items : List (PyKey × PyData)} (hpairs : ∀ p ∈ pairs, P p.1 ∧ Q p.2)
    (h : ∀ p ∈ items, P p.1 ∧ Q p.2) :
    ∀ p ∈ pairs.foldl (fun items p => setItem p.1 p.2 items) items, P p.1 ∧ Q p.2 := by
  induction pairs generalizing items with
  | nil => exact h
  | cons p pairs ih =>
    obtain ⟨hp, hrest⟩ := List.forall_mem_cons.mp hpairs
    exact ih hrest (forall_setItem hp.1 hp.2 h)

theorem forall_ofPairs {P : PyKey → Prop} {Q : PyData → Prop} {pairs : List (PyKey × PyData)}
    (h : ∀ p ∈ pairs, P p.1 ∧ Q p.2) : ∀ p ∈ ofPairs pairs, P p.1 ∧ Q p.2 :=
  forall_foldl_setItem pairs h fun p hp => by cases hp

/-- Setting an item keeps the keys different. -/
theorem wellFormedItems_setItem {key : PyKey} {value : PyData} {items : List (PyKey × PyData)}
    (hvalue : wellFormed value = true) (h : wellFormedItems items = true) :
    wellFormedItems (setItem key value items) = true := by
  induction items with
  | nil => simp [setItem, wellFormedItems, hvalue]
  | cons q items ih =>
    obtain ⟨k, x⟩ := q
    rw [wellFormedItems, Bool.and_eq_true, Bool.and_eq_true, List.all_eq_true] at h
    unfold setItem
    split_ifs with hkey
    · rw [wellFormedItems, Bool.and_eq_true, Bool.and_eq_true, List.all_eq_true]
      exact ⟨h.1, hvalue, h.2.2⟩
    · rw [wellFormedItems, Bool.and_eq_true, Bool.and_eq_true, List.all_eq_true]
      refine ⟨fun p hp => ?_, h.2.1, ih h.2.2⟩
      exact (forall_setItem (P := fun k' => (!k.pyEq k') = true) (Q := fun _ => True)
        (by simpa using hkey) trivial (fun q hq => ⟨h.1 q hq, trivial⟩) p hp).1

theorem wellFormedItems_foldl (pairs : List (PyKey × PyData)) {items : List (PyKey × PyData)}
    (hpairs : ∀ p ∈ pairs, wellFormed p.2 = true) (h : wellFormedItems items = true) :
    wellFormedItems (pairs.foldl (fun items p => setItem p.1 p.2 items) items) = true := by
  induction pairs generalizing items with
  | nil => exact h
  | cons p pairs ih =>
    exact ih (fun q hq => hpairs q (List.mem_cons_of_mem _ hq))
      (wellFormedItems_setItem (hpairs p List.mem_cons_self) h)

/-- Keys that are all different are kept. -/
theorem foldl_setItem (pairs items : List (PyKey × PyData))
    (h : (items ++ pairs).Pairwise fun p q => p.1.pyEq q.1 = false) :
    pairs.foldl (fun items p => setItem p.1 p.2 items) items = items ++ pairs := by
  have hnew : ∀ (p : PyKey × PyData) (xs : List (PyKey × PyData)),
      (∀ q ∈ xs, q.1.pyEq p.1 = false) → setItem p.1 p.2 xs = xs ++ [p] := by
    intro p xs hxs
    induction xs with
    | nil => rfl
    | cons q xs ih =>
      obtain ⟨k, x⟩ := q
      unfold setItem
      rw [if_neg (by simpa using hxs (k, x) List.mem_cons_self),
        ih fun q hq => hxs q (List.mem_cons_of_mem _ hq)]
      rfl
  induction pairs generalizing items with
  | nil => rw [List.foldl_nil, List.append_nil]
  | cons p pairs ih =>
    have hlast : ∀ q ∈ items, q.1.pyEq p.1 = false := fun q hq =>
      (List.pairwise_append.mp h).2.2 q hq p List.mem_cons_self
    rw [List.foldl_cons, hnew p items hlast, ih (items ++ [p]) (by simpa using h), List.append_assoc]
    rfl

mutual

/-- No key is repeated in what `json.loads` returns. -/
theorem wellFormed_loads : ∀ v : PyValue, wellFormed (loads v) = true
  | .none => rfl
  | .bool _ => rfl
  | .int _ => rfl
  | .float _ => rfl
  | .str _ => rfl
  | .other => rfl
  | .list xs => by
    rw [loads, wellFormed]
    exact wellFormedList_loadsList xs
  | .dict items => by
    rw [loads, wellFormed]
    exact wellFormedItems_foldl (loadsItems items) (wellFormed_loadsItems items) rfl

theorem wellFormedList_loadsList : ∀ xs : List PyValue, wellFormedList (loadsList xs) = true
  | [] => rfl
  | x :: xs => by
    rw [loadsList, wellFormedList, wellFormed_loads x, wellFormedList_loadsList xs]
    rfl

theorem wellFormed_loadsItems : ∀ (items : List (String × PyValue)), ∀ p ∈ loadsItems items,
    wellFormed p.2 = true
  | [], p, hp => by cases hp
  | (k, x) :: xs, p, hp => by
    rw [loadsItems] at hp
    rcases List.mem_cons.mp hp with rfl | hp
    · exact wellFormed_loads x
    · exact wellFormed_loadsItems xs p hp

end

theorem wellFormedItems_loads (pairs : List (String × PyValue)) :
    wellFormedItems (ofPairs (loadsItems pairs)) = true := by
  have h := wellFormed_loads (.dict pairs)
  rwa [loads, wellFormed] at h

theorem isStr_loadsItems (pairs : List (String × PyValue)) :
    ∀ p ∈ loadsItems pairs, p.1.isStr = true ∧ True := by
  intro p hp
  obtain ⟨q, -, rfl⟩ := List.mem_map.mp (loadsItems_eq_map pairs ▸ hp)
  exact ⟨rfl, trivial⟩

/-- Only a string finds something in an object. -/
theorem lookup_ofPairs {pairs : List (String × PyValue)} {key : PyKey} {y : PyData}
    (h : lookup key (ofPairs (loadsItems pairs)) = some y) : key.isStr = true := by
  unfold lookup at h
  obtain ⟨item, hitem, -⟩ := Option.map_eq_some_iff.mp h
  have hkey := List.find?_some (p := fun item : PyKey × PyData => key.pyEq item.1) hitem
  have hstr := (forall_ofPairs (P := fun k => k.isStr = true) (Q := fun _ => True)
    (isStr_loadsItems pairs) item (List.mem_of_find?_eq_some hitem)).1
  obtain ⟨s, hs⟩ := PyKey.isStr_iff.mp hstr
  rw [hs] at hkey
  exact PyKey.isStr_iff.mpr ⟨s, PyKey.pyEq_str.mp hkey⟩

/-- Strings that are all different are kept. -/
theorem ofPairs_nodup {pairs : List (String × PyValue)} (h : (pairs.map (·.1)).Nodup) :
    ofPairs (loadsItems pairs) = loadsItems pairs := by
  refine foldl_setItem (loadsItems pairs) [] ?_
  rw [List.nil_append, loadsItems_eq_map, List.pairwise_map]
  refine (List.pairwise_map.mp h).imp fun hne => ?_
  rw [Bool.eq_false_iff, Ne, PyKey.pyEq_str]
  exact fun hsame => hne (PyKey.str.inj hsame)

theorem lookup_loadsItems_mem {pairs : List (String × PyValue)} (h : (pairs.map (·.1)).Nodup)
    {q : String × PyValue} (hq : q ∈ pairs) :
    lookup (.str q.1) (loadsItems pairs) = some (loads q.2) := by
  induction pairs with
  | nil => cases hq
  | cons r pairs ih =>
    rw [List.map_cons, List.nodup_cons] at h
    unfold lookup at ih ⊢
    rw [loadsItems, List.find?_cons]
    rcases List.mem_cons.mp hq with rfl | hq
    · rw [PyKey.pyEq_str.mpr rfl]
      rfl
    · have hne : PyKey.pyEq (.str q.1) (.str r.1) = false := by
        rw [Bool.eq_false_iff, Ne, PyKey.pyEq_str]
        exact fun hsame => h.1 (List.mem_map.mpr ⟨q, hq, PyKey.str.inj hsame⟩)
      rw [hne]
      exact ih h.2 hq

/-- An item, and what JSON makes of it. -/
def Dumped (p : PyKey × PyData) (q : String × PyValue) : Prop :=
  p.1.jsonText = some q.1 ∧ (pyEq p.2 (loads q.2) = true ↔ survives p.2 = true)

theorem Dumped.key {p : PyKey × PyData} {q : String × PyValue} (h : Dumped p q)
    (hp : p.1.isStr = true) : p.1 = .str q.1 := by
  obtain ⟨s, hs⟩ := PyKey.isStr_iff.mp hp
  have htext := h.1
  rw [hs] at htext ⊢
  rw [Option.some.inj htext]

/-- Keys that are strings stay different. -/
theorem dumped_nodup {items : List (PyKey × PyData)} {pairs : List (String × PyValue)}
    (h : List.Forall₂ Dumped items pairs) (hkeys : ∀ p ∈ items, p.1.isStr = true)
    (hdistinct : items.Pairwise fun p q => p.1.pyEq q.1 = false) : (pairs.map (·.1)).Nodup := by
  induction h with
  | nil => exact List.nodup_nil
  | @cons p q items pairs hpq hrest ih =>
    rw [List.pairwise_cons] at hdistinct
    have hkeys' : ∀ p ∈ items, p.1.isStr = true := fun p hp => hkeys p (List.mem_cons_of_mem _ hp)
    rw [List.map_cons, List.nodup_cons]
    refine ⟨fun hmem => ?_, ih hkeys' hdistinct.2⟩
    obtain ⟨r, hr, hsame⟩ := List.mem_map.mp hmem
    obtain ⟨p', hp', hd⟩ := mem_right_of_forall₂ hrest hr
    have hdiff := hdistinct.1 p' hp'
    rw [hpq.key (hkeys p List.mem_cons_self), hd.key (hkeys' p' hp'), hsame,
      PyKey.pyEq_str.mpr rfl] at hdiff
    cases hdiff

/-- A `dict` equals what is read back exactly if JSON keeps each of its items. -/
theorem pyEq_items {items : List (PyKey × PyData)} {pairs : List (String × PyValue)}
    (h : List.Forall₂ Dumped items pairs)
    (hdistinct : items.Pairwise fun p q => p.1.pyEq q.1 = false) :
    pyEq (.dict items) (loads (.dict pairs)) = true ↔ survivesItems items = true := by
  have hvalue : (∀ p ∈ items, p.1.isStr = true) → ∀ p ∈ items,
      ((lookup p.1 (ofPairs (loadsItems pairs))).any (pyEq p.2) = true ↔
        survives p.2 = true) := by
    intro hkeys p hp
    have hnodup := dumped_nodup h hkeys hdistinct
    obtain ⟨q, hq, hd⟩ := mem_left_of_forall₂ h hp
    rw [hd.key (hkeys p hp), ofPairs_nodup hnodup, lookup_loadsItems_mem hnodup hq,
      Option.any_some, hd.2]
  rw [loads, pyEq]
  simp only [Bool.and_eq_true, decide_eq_true_eq]
  rw [pyEqItems_iff, survivesItems_iff]
  constructor
  · rintro ⟨-, heq⟩
    have hkeys : ∀ p ∈ items, p.1.isStr = true := by
      intro p hp
      cases hy : lookup p.1 (ofPairs (loadsItems pairs)) with
      | none =>
        have hfound := heq p hp
        rw [hy] at hfound
        cases hfound
      | some y => exact lookup_ofPairs hy
    exact fun p hp => ⟨hkeys p hp, (hvalue hkeys p hp).mp (heq p hp)⟩
  · intro hall
    have hkeys : ∀ p ∈ items, p.1.isStr = true := fun p hp => (hall p hp).1
    refine ⟨?_, fun p hp => (hvalue hkeys p hp).mpr (hall p hp).2⟩
    rw [ofPairs_nodup (dumped_nodup h hkeys hdistinct), loadsItems_eq_map, List.length_map]
    exact h.length_eq

mutual

/-- A value equals what is read back from its JSON text exactly if JSON keeps it. -/
theorem pyEq_loads_iff : ∀ (x : PyData) (v : PyValue), wellFormed x = true → dumps x = some v →
    (pyEq x (loads v) = true ↔ survives x = true)
  | .none, v, _, h => by
    cases h
    simp [loads, pyEq, survives]
  | .bool b, v, _, h => by
    cases h
    simp [loads, pyEq, survives, number, PyValue.sameNumber]
  | .int n, v, _, h => by
    cases h
    simp [loads, pyEq, survives, number, PyValue.sameNumber]
  | .float x, v, _, h => by
    cases h
    simp [loads, pyEq, survives, number, PyValue.sameNumber]
  | .str s, v, _, h => by
    cases h
    simp [loads, pyEq, survives]
  | .other, v, _, h => by cases h
  | .list xs, v, hwf, h => by
    rw [dumps] at h
    obtain ⟨vs, hvs, rfl⟩ := Option.map_eq_some_iff.mp h
    rw [loads, pyEq, survives]
    exact pyEqList_loads_iff xs vs hwf hvs
  | .tuple xs, v, hwf, h => by
    rw [dumps] at h
    obtain ⟨vs, hvs, rfl⟩ := Option.map_eq_some_iff.mp h
    rw [loads, pyEq, survives]
    simp
  | .dict items, v, hwf, h => by
    rw [dumps] at h
    obtain ⟨pairs, hpairs, rfl⟩ := Option.map_eq_some_iff.mp h
    rw [wellFormed] at hwf
    rw [survives]
    exact pyEq_items (dumped_of_dumpsItems items pairs hwf hpairs) (wellFormedItems_pairwise hwf)

theorem pyEqList_loads_iff : ∀ (xs : List PyData) (vs : List PyValue), wellFormedList xs = true →
    dumpsList xs = some vs → (pyEqList xs (loadsList vs) = true ↔ survivesList xs = true)
  | [], vs, _, h => by
    cases h
    simp [loadsList, pyEqList, survivesList]
  | x :: xs, vs, hwf, h => by
    rw [dumpsList] at h
    obtain ⟨v, hv, h⟩ := Option.bind_eq_some_iff.mp h
    obtain ⟨vs', hvs, h⟩ := Option.bind_eq_some_iff.mp h
    cases h
    rw [wellFormedList, Bool.and_eq_true] at hwf
    rw [loadsList, pyEqList, survivesList, Bool.and_eq_true, Bool.and_eq_true,
      pyEq_loads_iff x v hwf.1 hv, pyEqList_loads_iff xs vs' hwf.2 hvs]

theorem dumped_of_dumpsItems : ∀ (items : List (PyKey × PyData)) (pairs : List (String × PyValue)),
    wellFormedItems items = true → dumpsItems items = some pairs → List.Forall₂ Dumped items pairs
  | [], pairs, _, h => by
    cases h
    exact List.Forall₂.nil
  | (k, x) :: xs, pairs, hwf, h => by
    rw [dumpsItems] at h
    obtain ⟨key, hkey, h⟩ := Option.bind_eq_some_iff.mp h
    obtain ⟨v, hv, h⟩ := Option.bind_eq_some_iff.mp h
    obtain ⟨vs', hvs, h⟩ := Option.bind_eq_some_iff.mp h
    cases h
    rw [wellFormedItems, Bool.and_eq_true, Bool.and_eq_true] at hwf
    exact List.Forall₂.cons ⟨hkey, pyEq_loads_iff x v hwf.2.1 hv⟩
      (dumped_of_dumpsItems xs vs' hwf.2.2 hvs)

end

/-! ## What was read can be written -/

theorem dumpsItems_isSome_iff {items : List (PyKey × PyData)} :
    (dumpsItems items).isSome = true ↔
      ∀ p ∈ items, p.1.jsonText.isSome = true ∧ (dumps p.2).isSome = true := by
  induction items with
  | nil => simp [dumpsItems]
  | cons p items ih =>
    obtain ⟨k, x⟩ := p
    rw [dumpsItems, List.forall_mem_cons, ← ih]
    cases k.jsonText with
    | none => simp
    | some key =>
      cases dumps x with
      | none => simp
      | some v => cases dumpsItems items <;> simp

mutual

/-- The syntax of a JSON text has no other objects in it. -/
theorem serializable_dumps : ∀ (x : PyData) (v : PyValue), dumps x = some v → v.serializable = true
  | .none, v, h => by cases h; rfl
  | .bool _, v, h => by cases h; rfl
  | .int _, v, h => by cases h; rfl
  | .float _, v, h => by cases h; rfl
  | .str _, v, h => by cases h; rfl
  | .other, v, h => by cases h
  | .list xs, v, h => by
    rw [dumps] at h
    obtain ⟨vs, hvs, rfl⟩ := Option.map_eq_some_iff.mp h
    exact serializable_dumpsList xs vs hvs
  | .tuple xs, v, h => by
    rw [dumps] at h
    obtain ⟨vs, hvs, rfl⟩ := Option.map_eq_some_iff.mp h
    exact serializable_dumpsList xs vs hvs
  | .dict items, v, h => by
    rw [dumps] at h
    obtain ⟨pairs, hpairs, rfl⟩ := Option.map_eq_some_iff.mp h
    exact serializable_dumpsItems items pairs hpairs

theorem serializable_dumpsList : ∀ (xs : List PyData) (vs : List PyValue), dumpsList xs = some vs →
    PyValue.serializableList vs = true
  | [], vs, h => by cases h; rfl
  | x :: xs, vs, h => by
    rw [dumpsList] at h
    obtain ⟨v, hv, h⟩ := Option.bind_eq_some_iff.mp h
    obtain ⟨vs', hvs, h⟩ := Option.bind_eq_some_iff.mp h
    cases h
    rw [PyValue.serializableList, serializable_dumps x v hv, serializable_dumpsList xs vs' hvs]
    rfl

theorem serializable_dumpsItems : ∀ (items : List (PyKey × PyData)) (pairs : List (String × PyValue)),
    dumpsItems items = some pairs → PyValue.serializableItems pairs = true
  | [], pairs, h => by cases h; rfl
  | (k, x) :: xs, pairs, h => by
    rw [dumpsItems] at h
    obtain ⟨key, -, h⟩ := Option.bind_eq_some_iff.mp h
    obtain ⟨v, hv, h⟩ := Option.bind_eq_some_iff.mp h
    obtain ⟨vs', hvs, h⟩ := Option.bind_eq_some_iff.mp h
    cases h
    rw [PyValue.serializableItems, serializable_dumps x v hv, serializable_dumpsItems xs vs' hvs]
    rfl

end

mutual

/-- What `json.loads` returns, `json.dumps` takes. -/
theorem dumps_loads : ∀ v : PyValue, v.serializable = true → (dumps (loads v)).isSome = true
  | .none, _ => rfl
  | .bool _, _ => rfl
  | .int _, _ => rfl
  | .float _, _ => rfl
  | .str _, _ => rfl
  | .other, h => by cases h
  | .list xs, h => by
    rw [loads, dumps, Option.isSome_map]
    exact dumpsList_loadsList xs h
  | .dict items, h => by
    rw [loads, dumps, Option.isSome_map, dumpsItems_isSome_iff]
    exact forall_ofPairs (P := fun k => k.jsonText.isSome = true) (Q := fun x => (dumps x).isSome = true)
      (dumpsItems_loadsItems items h)

theorem dumpsList_loadsList : ∀ xs : List PyValue, PyValue.serializableList xs = true →
    (dumpsList (loadsList xs)).isSome = true
  | [], _ => rfl
  | x :: xs, h => by
    rw [PyValue.serializableList, Bool.and_eq_true] at h
    obtain ⟨v, hv⟩ := Option.isSome_iff_exists.mp (dumps_loads x h.1)
    obtain ⟨vs, hvs⟩ := Option.isSome_iff_exists.mp (dumpsList_loadsList xs h.2)
    rw [loadsList, dumpsList, hv, hvs]
    rfl

theorem dumpsItems_loadsItems : ∀ items : List (String × PyValue),
    PyValue.serializableItems items = true → ∀ p ∈ loadsItems items,
      p.1.jsonText.isSome = true ∧ (dumps p.2).isSome = true
  | [], _, p, hp => by cases hp
  | (k, x) :: xs, h, p, hp => by
    rw [PyValue.serializableItems, Bool.and_eq_true] at h
    rw [loadsItems] at hp
    rcases List.mem_cons.mp hp with rfl | hp
    · exact ⟨rfl, dumps_loads x h.1⟩
    · exact dumpsItems_loadsItems xs h.2 p hp

end

end PyData

end Galaxz
