import Galaxz.Security.Proofs.AuditProofs
import Mathlib.Data.String.Basic

/-!
# When honest logs verify

An event is hashed as `append` lists it and verified as `json.loads` gives it back with its keys sorted.
The two texts agree exactly when the keys of the extra are in the order of their texts. With that, the
export of a run verifies exactly when every append committed on top of the row it had read.
-/

namespace Galaxz

namespace PyValue

/-! ## Values that come back from their texts -/

theorem keysSortedItems_iff (items : List (String × PyValue)) :
    KeysSortedItems items ↔ ∀ item ∈ items, item.2.KeysSorted := by
  induction items with
  | nil => simp [KeysSortedItems]
  | cons x xs ih =>
    obtain ⟨k, v⟩ := x
    rw [KeysSortedItems, ih, List.forall_mem_cons]

theorem mem_insertItem {item y : String × PyValue} {xs : List (String × PyValue)} :
    y ∈ insertItem item xs ↔ y = item ∨ y ∈ xs := by
  induction xs with
  | nil => simp [insertItem]
  | cons x xs ih =>
    unfold insertItem
    split_ifs
    · rw [List.mem_cons]
    · rw [List.mem_cons, ih, List.mem_cons, or_left_comm]

/-- Inserting a new key keeps the keys in order. -/
theorem insertItem_pairwise {item : String × PyValue} {xs : List (String × PyValue)}
    (hxs : (xs.map (·.1)).Pairwise (· < ·)) (hnew : item.1 ∉ xs.map (·.1)) :
    ((insertItem item xs).map (·.1)).Pairwise (· < ·) := by
  induction xs with
  | nil => simp [insertItem]
  | cons x xs ih =>
    rw [List.map_cons, List.pairwise_cons] at hxs
    rw [List.map_cons, List.mem_cons, not_or] at hnew
    unfold insertItem
    split_ifs with hle
    · have hlt : item.1 < x.1 := lt_of_le_of_ne hle hnew.1
      rw [List.map_cons, List.map_cons, List.pairwise_cons, List.pairwise_cons]
      refine ⟨fun k hk => ?_, hxs⟩
      rcases List.mem_cons.mp hk with rfl | hk
      · exact hlt
      · exact lt_trans hlt (hxs.1 k hk)
    · have hlt : x.1 < item.1 := not_le.mp hle
      rw [List.map_cons, List.pairwise_cons]
      refine ⟨fun k hk => ?_, ih hxs.2 hnew.2⟩
      obtain ⟨y, hy, rfl⟩ := List.mem_map.mp hk
      rcases mem_insertItem.mp hy with rfl | hy
      · exact hlt
      · exact hxs.1 _ (List.mem_map_of_mem hy)

theorem mem_sortKeysItems {y : String × PyValue} {items : List (String × PyValue)} :
    y ∈ sortKeysItems items ↔ ∃ item ∈ items, y = (item.1, item.2.sortKeys) := by
  induction items with
  | nil => simp [sortKeysItems]
  | cons x xs ih =>
    obtain ⟨k, v⟩ := x
    rw [sortKeysItems, mem_insertItem, ih]
    simp

/-- Sorting items with different keys puts the keys in order. -/
theorem sortKeysItems_pairwise {items : List (String × PyValue)} (h : (items.map (·.1)).Nodup) :
    ((sortKeysItems items).map (·.1)).Pairwise (· < ·) := by
  induction items with
  | nil => simp [sortKeysItems]
  | cons x xs ih =>
    obtain ⟨k, v⟩ := x
    rw [List.map_cons, List.nodup_cons] at h
    rw [sortKeysItems]
    refine insertItem_pairwise (ih h.2) fun hmem => h.1 ?_
    obtain ⟨y, hy, hk⟩ := List.mem_map.mp hmem
    obtain ⟨item, hitem, rfl⟩ := mem_sortKeysItems.mp hy
    exact List.mem_map.mpr ⟨item, hitem, hk⟩

end PyValue

namespace AuditLog

open PyValue

theorem lookup_eq_none_iff_keys {items : List (String × PyValue)} {key : String} :
    items.lookup key = Option.none ↔ key ∉ items.map (·.1) := by
  rw [List.lookup_eq_none_iff]
  constructor
  · intro h hmem
    obtain ⟨item, hitem, rfl⟩ := List.mem_map.mp hmem
    exact absurd (h item hitem) (by simp)
  · intro h item hitem
    rw [bne_iff_ne]
    rintro rfl
    exact h (List.mem_map_of_mem hitem)

/-- What `json.loads` returns has every key once. -/
theorem loadsItems_nodup (items : List (String × PyValue)) : ((loadsItems items).map (·.1)).Nodup := by
  induction items with
  | nil => simp [loadsItems]
  | cons x xs ih =>
    obtain ⟨k, v⟩ := x
    rw [loadsItems]
    split
    · next hnone =>
      rw [List.map_cons, List.nodup_cons]
      exact ⟨lookup_eq_none_iff_keys.mp hnone, ih⟩
    · rw [List.map_cons, List.nodup_cons]
      constructor
      · intro hmem
        obtain ⟨item, hitem, hk⟩ := List.mem_map.mp hmem
        exact absurd hk (by simpa using (List.mem_filter.mp hitem).2)
      · exact List.Nodup.sublist (List.Sublist.map _ List.filter_sublist) ih

mutual

/-- What `json.loads` returns is in order once its keys are sorted. -/
theorem sorted_loads : ∀ v : PyValue, (loads v).sortKeys.KeysSorted
  | .none => trivial
  | .bool _ => trivial
  | .int _ => trivial
  | .float _ => trivial
  | .str _ => trivial
  | .other => trivial
  | .list xs => sorted_loadsList xs
  | .dict items => by
    refine ⟨sortKeysItems_pairwise (loadsItems_nodup items), ?_⟩
    rw [keysSortedItems_iff]
    intro y hy
    obtain ⟨item, hitem, rfl⟩ := mem_sortKeysItems.mp hy
    exact sorted_loadsItems items item hitem

theorem sorted_loadsList : ∀ xs : List PyValue, KeysSortedList (sortKeysList (loadsList xs))
  | [] => trivial
  | x :: xs => ⟨sorted_loads x, sorted_loadsList xs⟩

theorem sorted_loadsItems : ∀ items : List (String × PyValue),
    ∀ item ∈ loadsItems items, item.2.sortKeys.KeysSorted
  | [], item, h => absurd h List.not_mem_nil
  | (k, x) :: xs, item, h => by
    rw [loadsItems] at h
    split at h
    · rcases List.mem_cons.mp h with rfl | h
      · exact sorted_loads x
      · exact sorted_loadsItems xs item h
    · next y hy =>
      rcases List.mem_cons.mp h with rfl | h
      · obtain ⟨l₁, l₂, heq, -⟩ := List.lookup_eq_some_iff.mp hy
        exact sorted_loadsItems xs (k, y) (by rw [heq]; simp)
      · exact sorted_loadsItems xs item (List.mem_of_mem_filter h)

end

mutual

/-- A value whose keys are in order comes back from its text as it is. -/
theorem loads_of_sorted : ∀ v : PyValue, v.KeysSorted → loads v = v ∧ v.sortKeys = v
  | .none, _ => ⟨rfl, rfl⟩
  | .bool _, _ => ⟨rfl, rfl⟩
  | .int _, _ => ⟨rfl, rfl⟩
  | .float _, _ => ⟨rfl, rfl⟩
  | .str _, _ => ⟨rfl, rfl⟩
  | .other, _ => ⟨rfl, rfl⟩
  | .list xs, h => by
    obtain ⟨hloads, hsort⟩ := loadsList_of_sorted xs h
    rw [loads, sortKeys, hloads, hsort]
    exact ⟨rfl, rfl⟩
  | .dict items, h => by
    obtain ⟨hloads, hsort⟩ := loadsItems_of_sorted items h.1 h.2
    rw [loads, sortKeys, hloads, hsort]
    exact ⟨rfl, rfl⟩

theorem loadsList_of_sorted : ∀ xs : List PyValue, KeysSortedList xs →
    loadsList xs = xs ∧ sortKeysList xs = xs
  | [], _ => ⟨rfl, rfl⟩
  | x :: xs, h => by
    obtain ⟨hloads, hsort⟩ := loads_of_sorted x h.1
    obtain ⟨hloads', hsort'⟩ := loadsList_of_sorted xs h.2
    rw [loadsList, sortKeysList, hloads, hsort, hloads', hsort']
    exact ⟨rfl, rfl⟩

theorem loadsItems_of_sorted : ∀ items : List (String × PyValue), (items.map (·.1)).Pairwise (· < ·) →
    KeysSortedItems items → loadsItems items = items ∧ sortKeysItems items = items
  | [], _, _ => ⟨rfl, rfl⟩
  | (k, x) :: xs, hkeys, h => by
    rw [List.map_cons, List.pairwise_cons] at hkeys
    obtain ⟨hloads, hsort⟩ := loads_of_sorted x h.1
    obtain ⟨hloads', hsort'⟩ := loadsItems_of_sorted xs hkeys.2 h.2
    have hnew : xs.lookup k = Option.none :=
      lookup_eq_none_iff_keys.mpr fun hmem => lt_irrefl k (hkeys.1 k hmem)
    constructor
    · rw [loadsItems]
      simp only [hloads', hnew, hloads]
    · rw [sortKeysItems, hsort, hsort']
      cases xs with
      | nil => rfl
      | cons y ys =>
        have hle : k ≤ y.1 := le_of_lt (hkeys.1 y.1 (by simp))
        exact if_pos hle

end

/-- A value comes back from its text with the same canonical text exactly when its keys are in order. -/
theorem sortKeys_loads_iff (v : PyValue) : (loads v).sortKeys = v ↔ v.KeysSorted := by
  constructor
  · intro h
    rw [← h]
    exact sorted_loads v
  · intro h
    obtain ⟨hloads, hsort⟩ := loads_of_sorted v h
    rw [hloads, hsort]

/-! ## Rows -/

theorem serializableItems_iff (items : List (String × PyValue)) :
    serializableItems items = true ↔ ∀ item ∈ items, item.2.serializable = true := by
  induction items with
  | nil => simp [serializableItems]
  | cons x xs ih =>
    obtain ⟨k, v⟩ := x
    rw [serializableItems, Bool.and_eq_true, ih, List.forall_mem_cons]

theorem mem_of_insertByKey {key : JsonKey} {value : PyValue} {xs : List (JsonKey × PyValue)} :
    ∀ {ys : List (JsonKey × PyValue)}, PyArg.insertByKey key value xs = .ok ys →
      ∀ y ∈ ys, y = (key, value) ∨ y ∈ xs := by
  induction xs with
  | nil =>
    intro ys h y hy
    cases h
    exact Or.inl (List.mem_singleton.mp hy)
  | cons x xs ih =>
    intro ys h y hy
    obtain ⟨before, -, h⟩ := (except_bind_ok_iff _ _ _).mp h
    cases before with
    | true =>
      obtain ⟨rest, hrest, h⟩ := (except_bind_ok_iff _ _ _).mp h
      cases h
      rcases List.mem_cons.mp hy with rfl | hy
      · exact Or.inr List.mem_cons_self
      · rcases ih hrest y hy with rfl | hy
        · exact Or.inl rfl
        · exact Or.inr (List.mem_cons_of_mem _ hy)
    | false =>
      cases h
      rcases List.mem_cons.mp hy with rfl | hy
      · exact Or.inl rfl
      · exact Or.inr hy

mutual

/-- What the encoder accepts, it writes as JSON. -/
theorem dumped_serializable : ∀ (x : PyArg) (v : PyValue), x.dumped = .ok v → v.serializable = true
  | .none, _, h => by cases h; rfl
  | .bool _, _, h => by cases h; rfl
  | .int _, _, h => by cases h; rfl
  | .float _, _, h => by cases h; rfl
  | .str _, _, h => by cases h; rfl
  | .other, _, h => by cases h
  | .list xs, v, h => by
    obtain ⟨values, hvalues, h⟩ := (except_bind_ok_iff _ _ _).mp h
    cases h
    exact dumpedList_serializable xs values hvalues
  | .dict items, v, h => by
    obtain ⟨sorted, hsorted, h⟩ := (except_bind_ok_iff _ _ _).mp h
    cases h
    show serializableItems _ = true
    rw [serializableItems_iff]
    intro item hitem
    obtain ⟨y, hy, rfl⟩ := List.mem_map.mp hitem
    exact dumpedItems_serializable items sorted hsorted y hy

theorem dumpedList_serializable : ∀ (xs : List PyArg) (values : List PyValue),
    PyArg.dumpedList xs = .ok values → serializableList values = true
  | [], _, h => by cases h; rfl
  | x :: xs, _, h => by
    obtain ⟨value, hvalue, h⟩ := (except_bind_ok_iff _ _ _).mp h
    obtain ⟨values, hvalues, h⟩ := (except_bind_ok_iff _ _ _).mp h
    cases h
    rw [serializableList, dumped_serializable x value hvalue, dumpedList_serializable xs values hvalues]
    rfl

theorem dumpedItems_serializable : ∀ (items : List (JsonKey × PyArg))
    (sorted : List (JsonKey × PyValue)), PyArg.dumpedItems items = .ok sorted →
    ∀ y ∈ sorted, y.2.serializable = true
  | [], _, h, y, hy => by
    cases h
    cases hy
  | (k, x) :: items, _, h, y, hy => by
    obtain ⟨value, hvalue, h⟩ := (except_bind_ok_iff _ _ _).mp h
    obtain ⟨rest, hrest, h⟩ := (except_bind_ok_iff _ _ _).mp h
    rcases mem_of_insertByKey h y hy with rfl | hy
    · exact dumped_serializable x value hvalue
    · exact dumpedItems_serializable items rest hrest y hy

end

variable {sha256 : String → String} {args : AuditArgs} {prior : Option String} {row : AuditRow}

/-- The item that `export` returns for a row. -/
def itemOf (row : AuditRow) : AuditItem := { event := loadsItems row.event, eventHash := .str row.eventHash }

/-- What a row is made of. -/
theorem newRow_ok (h : newRow sha256 args prior = .ok row) :
    ∃ extra, PyArg.dumped (.dict args.extra) = .ok extra ∧
      row.event = [("action", .str args.action), ("actor", .str args.actor),
        ("evidence_version", .str args.evidenceVersion), ("extra", extra),
        ("prior_hash", priorValue prior), ("reason", .str args.reason)] ∧
      row.eventHash = sha256 (compactText (.dict row.event)) := by
  obtain ⟨event, hevent, h⟩ := (except_bind_ok_iff _ _ _).mp h
  obtain ⟨extra, hextra, hevent⟩ := (except_bind_ok_iff _ _ _).mp hevent
  cases h
  cases hevent
  exact ⟨extra, hextra, rfl, rfl⟩

/-- The export of a row names what the row names. -/
theorem priorOf_itemOf (h : newRow sha256 args prior = .ok row) :
    priorOf (itemOf row) = PyDict.get row.event "prior_hash" := by
  obtain ⟨extra, -, hevent, -⟩ := newRow_ok h
  have hloads : loads (priorValue prior) = priorValue prior := by
    cases prior with
    | none => rfl
    | some s => rfl
  unfold priorOf itemOf
  rw [hevent]
  simp [loadsItems, List.lookup_cons, PyDict.get, hloads]

/-- The keys of a row are in order when those of the extra are. -/
theorem keysSorted_row_iff (h : newRow sha256 args prior = .ok row) :
    (PyValue.dict row.event).KeysSorted ↔ args.Ordered := by
  obtain ⟨extra, hextra, hevent, -⟩ := newRow_ok h
  have hordered : args.Ordered ↔ extra.KeysSorted := by
    constructor
    · intro h
      exact h extra hextra
    · intro h v hv
      rw [hextra] at hv
      cases hv
      exact h
  have hprior : (priorValue prior).KeysSorted := by
    cases prior with
    | none => trivial
    | some s => trivial
  have hkeys : (["action", "actor", "evidence_version", "extra", "prior_hash", "reason"] :
      List String).Pairwise (· < ·) := by decide
  rw [hordered, hevent]
  constructor
  · rintro ⟨-, -, -, -, h, -⟩
    exact h
  · intro h
    exact ⟨hkeys, trivial, trivial, trivial, h, hprior, trivial, trivial⟩

/-- What a row lists is JSON. -/
theorem serializable_row (h : newRow sha256 args prior = .ok row) :
    (PyValue.dict row.event).serializable = true := by
  obtain ⟨extra, hextra, hevent, -⟩ := newRow_ok h
  have hex := dumped_serializable _ _ hextra
  have hprior : (priorValue prior).serializable = true := by
    cases prior with
    | none => rfl
    | some s => rfl
  rw [hevent]
  simp [PyValue.serializable, serializableItems, hex, hprior]

/-- A row whose extra is in order verifies on its own. -/
theorem hashed_itemOf (h : newRow sha256 args prior = .ok row) (hordered : args.Ordered) :
    Hashed sha256 (itemOf row) := by
  have hsorted := (keysSorted_row_iff h).mpr hordered
  have hitems : loadsItems row.event = row.event := PyValue.dict.inj (loads_of_sorted _ hsorted).1
  obtain ⟨extra, -, -, hhash⟩ := newRow_ok h
  constructor
  · show serializableItems (loadsItems row.event) = true
    rw [hitems]
    exact serializable_row h
  · show PyValue.str row.eventHash = .str (sha256 (compactText (loads (.dict row.event)).sortKeys))
    rw [(sortKeys_loads_iff _).mpr hsorted, hhash]

/-- With a digest that tells texts apart, no other row does. -/
theorem ordered_of_hashed (hsha : Function.Injective sha256) (h : newRow sha256 args prior = .ok row)
    (hhashed : Hashed sha256 (itemOf row)) : args.Ordered := by
  obtain ⟨hitem, heq⟩ := hhashed
  obtain ⟨extra, -, -, hhash⟩ := newRow_ok h
  have htext : compactText (.dict row.event) = compactText (loads (.dict row.event)).sortKeys := by
    refine hsha ?_
    rw [← hhash]
    exact PyValue.str.inj heq
  rw [← keysSorted_row_iff h, ← sortKeys_loads_iff]
  refine (compactText_injective (serializable_row h) ?_ htext).symm
  rw [PyValue.serializable_sortKeys]
  exact hitem

/-- The mark of the last row of an export is the last hash. -/
theorem tip_exported {rows : List AuditRow} (h : ∀ item ∈ exported rows, Hashed sha256 item) :
    HashChain.tip (markOf sha256) .none (exported rows) = priorValue (rows.getLast?.map (·.eventHash)) := by
  rcases List.eq_nil_or_concat rows with rfl | ⟨rows, row, rfl⟩
  · rfl
  · rw [List.concat_eq_append] at h ⊢
    rw [List.getLast?_concat]
    have hlast : (exported (rows ++ [row])).getLast? = some (itemOf row) := by
      rw [exported, List.map_append]
      exact List.getLast?_concat
    exact tip_of_last hlast h

theorem exported_concat (rows : List AuditRow) (row : AuditRow) :
    exported (rows ++ [row]) = exported rows ++ [itemOf row] := List.map_append

/-- One more row verifies if the rows before it do, it names the last of them, and its extra is in
order. -/
theorem verify_exported_concat {rows : List AuditRow} (h : newRow sha256 args prior = .ok row)
    (hverify : verify sha256 (exported rows) = .ok true)
    (hprior : PyDict.get row.event "prior_hash" = priorValue (rows.getLast?.map (·.eventHash)))
    (hordered : args.Ordered) : verify sha256 (exported (rows ++ [row])) = .ok true := by
  obtain ⟨hlinked, hhashed⟩ := (verify_iff _).mp hverify
  rw [exported_concat, verify_iff, HashChain.linked_concat, List.forall_mem_append,
    List.forall_mem_singleton]
  refine ⟨⟨hlinked, ?_⟩, hhashed, hashed_itemOf h hordered⟩
  rw [priorOf_itemOf h, hprior, tip_exported hhashed]

/-- With a digest that tells texts apart, it verifies in no other case. -/
theorem of_verify_exported_concat (hsha : Function.Injective sha256) {rows : List AuditRow}
    (h : newRow sha256 args prior = .ok row)
    (hverify : verify sha256 (exported (rows ++ [row])) = .ok true) :
    verify sha256 (exported rows) = .ok true ∧
      PyDict.get row.event "prior_hash" = priorValue (rows.getLast?.map (·.eventHash)) ∧
      args.Ordered := by
  rw [exported_concat, verify_iff, HashChain.linked_concat, List.forall_mem_append,
    List.forall_mem_singleton] at hverify
  obtain ⟨⟨hlinked, hprior⟩, hhashed, hitem⟩ := hverify
  rw [priorOf_itemOf h, tip_exported hhashed] at hprior
  exact ⟨(verify_iff _).mpr ⟨hlinked, hhashed⟩, hprior, ordered_of_hashed hsha h hitem⟩

end AuditLog

namespace AuditState

/-! ## Runs -/

variable {sha256 : String → String} {s : AuditState}

/-- What is inserted was built for its append, and what an append returned is committed. -/
structure Inv (sha256 : String → String) (s : AuditState) : Prop where
  inserted : ∀ a ∈ s.appends, ∀ row, a.phase = .inserted row →
    ∃ prior, AuditLog.newRow sha256 a.args prior = .ok row
  returned : ∀ a ∈ s.appends, ∀ row, a.phase = .returned row → row ∈ s.rows

theorem mem_setPhase {i : ℕ} {phase : AppendPhase} {a : AuditAppend}
    (h : a ∈ (s.setPhase i phase).appends) :
    a ∈ s.appends ∨ ∃ b, s.appends[i]? = some b ∧ a = { b with phase } := by
  obtain ⟨k, hk⟩ := List.mem_iff_getElem?.mp h
  rcases Table.getElem?_modify_some.mp hk with ⟨-, b, hb, rfl⟩ | ⟨-, hb⟩
  · exact Or.inr ⟨b, hb, rfl⟩
  · exact Or.inl (List.mem_of_getElem? hb)

/-- A change of phase keeps the invariant if the new phase meets it. -/
theorem Inv.setPhase (h : s.Inv sha256) {i : ℕ} {phase : AppendPhase} {rows : List AuditRow}
    (writer : Option ℕ) (hrows : s.rows ⊆ rows)
    (hinserted : ∀ a row, s.appends[i]? = some a → phase = .inserted row →
      ∃ prior, AuditLog.newRow sha256 a.args prior = .ok row)
    (hreturned : ∀ row, phase = .returned row → row ∈ rows) :
    Inv sha256 { s.setPhase i phase with rows, writer } := by
  constructor
  · intro a ha row hphase
    rcases mem_setPhase ha with ha | ⟨b, hb, rfl⟩
    · exact h.inserted a ha row hphase
    · exact hinserted b row hb hphase
  · intro a ha row hphase
    rcases mem_setPhase ha with ha | ⟨b, -, rfl⟩
    · exact hrows (h.returned a ha row hphase)
    · exact hreturned row hphase

/-- An append that gives up changes nothing else. -/
theorem Inv.raised (h : s.Inv sha256) (i : ℕ) (writer : Option ℕ) :
    Inv sha256 { s.setPhase i .raised with writer } := by
  refine h.setPhase writer (List.Subset.refl _) ?_ ?_
  · rintro a row - ⟨⟩
  · rintro row ⟨⟩

theorem Inv.advance (h : s.Inv sha256) (i : ℕ) : (s.advance sha256 i).Inv sha256 := by
  unfold AuditState.advance
  split
  · exact h
  next a ha =>
    split
    · refine h.setPhase s.writer (List.Subset.refl _) ?_ ?_
      · rintro a row - ⟨⟩
      · rintro row ⟨⟩
    · next prior hphase =>
      split
      · exact h.raised i s.writer
      next row hrow =>
        split_ifs
        · exact h
        · unfold insert
          split_ifs
          · exact h.raised i s.writer
          · refine h.setPhase (some i) (List.Subset.refl _) ?_ ?_
            · rintro b row' hb ⟨⟩
              rw [ha] at hb
              cases hb
              exact ⟨prior, hrow⟩
            · rintro row' ⟨⟩
    · next row hphase =>
      refine h.setPhase none (List.subset_append_left _ _) ?_ ?_
      · rintro b row' - ⟨⟩
      · rintro row' ⟨⟩
        exact List.mem_append_right _ List.mem_cons_self
    · exact h
    · exact h

theorem Inv.stop (h : s.Inv sha256) (i : ℕ) : (s.stop i).Inv sha256 := by
  unfold AuditState.stop
  split
  · exact h
  · split
    · exact h
    · exact h
    · exact h.raised i none
    · exact h.raised i s.writer

theorem Inv.step (h : s.Inv sha256) (action : AuditAction) :
    (AuditState.step sha256 action s).Inv sha256 := by
  cases action with
  | start args =>
    have hnew : ∀ a ∈ s.appends ++ [({ args := args } : AuditAppend)],
        a ∈ s.appends ∨ a.phase = .ready := by
      intro a ha
      rcases List.mem_append.mp ha with ha | ha
      · exact Or.inl ha
      · rw [List.mem_singleton.mp ha]
        exact Or.inr rfl
    constructor
    · intro a ha row hphase
      rcases hnew a ha with ha | hready
      · exact h.inserted a ha row hphase
      · rw [hready] at hphase
        cases hphase
    · intro a ha row hphase
      rcases hnew a ha with ha | hready
      · exact h.returned a ha row hphase
      · rw [hready] at hphase
        cases hphase
  | advance i => exact h.advance i
  | stop i => exact h.stop i

theorem Inv.empty : Inv sha256 {} := by
  constructor
  · rintro a ⟨⟩
  · rintro a ⟨⟩

/-- Only the commit of an append changes the log: it puts one row after the others. -/
theorem step_rows (action : AuditAction) (s : AuditState) :
    (step sha256 action s).rows = s.rows ∧ action.Orderly s ∨
      ∃ i a row, action = .advance i ∧ s.appends[i]? = some a ∧ a.phase = .inserted row ∧
        (step sha256 action s).rows = s.rows ++ [row] := by
  cases action with
  | start args => exact Or.inl ⟨rfl, trivial⟩
  | stop i =>
    refine Or.inl ⟨?_, trivial⟩
    show (s.stop i).rows = s.rows
    unfold AuditState.stop
    split
    · rfl
    · split <;> rfl
  | advance i =>
    by_cases hcommit : ∃ a row, s.appends[i]? = some a ∧ a.phase = .inserted row
    · obtain ⟨a, row, ha, hphase⟩ := hcommit
      refine Or.inr ⟨i, a, row, rfl, ha, hphase, ?_⟩
      show (s.advance sha256 i).rows = _
      unfold AuditState.advance
      simp only [ha, hphase]
    · left
      refine ⟨?_, fun a row ha hphase => absurd ⟨a, row, ha, hphase⟩ hcommit⟩
      show (s.advance sha256 i).rows = s.rows
      unfold AuditState.advance
      split
      · rfl
      next a ha =>
        split
        · rfl
        · split
          · rfl
          · split_ifs
            · rfl
            · unfold insert
              split_ifs <;> rfl
        · next row hphase => exact absurd ⟨a, row, ha, hphase⟩ hcommit
        · rfl
        · rfl

theorem Inv.honest_iff (h : s.Inv sha256) :
    s.Honest sha256 ↔ AuditLog.verify sha256 (AuditLog.exported s.rows) = .ok true :=
  ⟨fun hs => hs.1, fun hs => ⟨hs, h.returned⟩⟩

/-- An orderly step keeps a log honest. -/
theorem Inv.honest_step (h : s.Inv sha256) (action : AuditAction) (hs : s.Honest sha256)
    (horderly : action.Orderly s) : (AuditState.step sha256 action s).Honest sha256 := by
  rw [(h.step action).honest_iff]
  rw [h.honest_iff] at hs
  rcases step_rows action s with ⟨hrows, -⟩ | ⟨i, a, row, rfl, ha, hphase, hrows⟩
  · rw [hrows]
    exact hs
  · obtain ⟨prior, hrow⟩ := h.inserted a (List.mem_of_getElem? ha) row hphase
    obtain ⟨hprior, hordered⟩ := horderly a row ha hphase
    rw [hrows]
    exact AuditLog.verify_exported_concat hrow hs hprior hordered

/-- A log that is honest after a step was honest before it, and the step was orderly. -/
theorem Inv.of_honest_step (hsha : Function.Injective sha256) (h : s.Inv sha256) (action : AuditAction)
    (hs : (AuditState.step sha256 action s).Honest sha256) : s.Honest sha256 ∧ action.Orderly s := by
  rw [(h.step action).honest_iff] at hs
  rw [h.honest_iff]
  rcases step_rows action s with ⟨hrows, horderly⟩ | ⟨i, a, row, rfl, ha, hphase, hrows⟩
  · rw [hrows] at hs
    exact ⟨hs, horderly⟩
  · obtain ⟨prior, hrow⟩ := h.inserted a (List.mem_of_getElem? ha) row hphase
    rw [hrows] at hs
    obtain ⟨hverify, hprior, hordered⟩ := AuditLog.of_verify_exported_concat hsha hrow hs
    refine ⟨hverify, fun b row' hb hphase' => ?_⟩
    rw [ha] at hb
    cases hb
    rw [hphase] at hphase'
    cases hphase'
    exact ⟨hprior, hordered⟩

theorem inv_run (sha256 : String → String) (actions : List AuditAction) :
    (run sha256 actions).Inv sha256 := by
  have hstep : ∀ action s, Inv sha256 s → Inv sha256 (step sha256 action s) :=
    fun action s hs => hs.step action
  exact Machine.run_invariant hstep actions {} Inv.empty

/-- The log of a run is honest if every append committed while the last hash was the one it had read, with
the keys of its extra in the order of their texts; with a digest that tells texts apart, in no other
case. -/
theorem run_honest (sha256 : String → String) (actions : List AuditAction) :
    (Machine.Along (step sha256) AuditAction.Orderly actions {} → (run sha256 actions).Honest sha256) ∧
      (Function.Injective sha256 → (run sha256 actions).Honest sha256 →
        Machine.Along (step sha256) AuditAction.Orderly actions {}) := by
  constructor
  · intro halong
    have hstep : ∀ action s, Inv sha256 s ∧ s.Honest sha256 → AuditAction.Orderly action s →
        Inv sha256 (step sha256 action s) ∧ (step sha256 action s).Honest sha256 :=
      fun action s hs horderly => ⟨hs.1.step action, hs.1.honest_step action hs.2 horderly⟩
    have hempty : Honest sha256 {} := Inv.empty.honest_iff.mpr rfl
    exact (Machine.Along.invariant hstep ⟨Inv.empty, hempty⟩ halong).2.2
  · intro hsha
    induction actions using List.reverseRecOn with
    | nil => exact fun _ => trivial
    | append_singleton actions action ih =>
      intro hhonest
      rw [run, Machine.run_concat] at hhonest
      obtain ⟨hbefore, horderly⟩ := (inv_run sha256 actions).of_honest_step hsha action hhonest
      exact (ih hbefore).append ⟨horderly, trivial⟩

/-- The steps of an append that has the log to itself. -/
def turn (args : AuditArgs) (i : ℕ) : List AuditAction := [.start args, .advance i, .advance i, .advance i]

theorem appends_setPhase {i : ℕ} {a b : AuditAppend} (ha : s.appends[i]? = some a) {phase : AppendPhase}
    (hb : (s.setPhase i phase).appends[i]? = some b) : b = { a with phase } := by
  rcases Table.getElem?_modify_some.mp hb with ⟨-, c, hc, rfl⟩ | ⟨hne, -⟩
  · rw [ha] at hc
    cases hc
    rfl
  · exact absurd rfl hne

theorem advance_ready {i : ℕ} {a : AuditAppend} (ha : s.appends[i]? = some a) (hphase : a.phase = .ready) :
    s.advance sha256 i = s.setPhase i (.read s.lastHash) := by
  unfold AuditState.advance
  simp only [ha, hphase]

/-- What an append has inserted after the step that follows its read. -/
theorem advance_read {i : ℕ} {a b : AuditAppend} {prior : Option String} {row : AuditRow}
    (ha : s.appends[i]? = some a) (hphase : a.phase = .read prior)
    (hb : (s.advance sha256 i).appends[i]? = some b) (hrow : b.phase = .inserted row) :
    (s.advance sha256 i).rows = s.rows ∧ b.args = a.args ∧
      AuditLog.newRow sha256 a.args prior = .ok row := by
  unfold AuditState.advance at hb ⊢
  simp only [ha, hphase] at hb ⊢
  cases hnew : AuditLog.newRow sha256 a.args prior with
  | error e =>
    simp only [hnew] at hb
    rw [appends_setPhase ha hb] at hrow
    cases hrow
  | ok row' =>
    simp only [hnew] at hb ⊢
    split_ifs at hb ⊢
    · rw [ha] at hb
      cases hb
      rw [hphase] at hrow
      cases hrow
    · unfold insert at hb ⊢
      split_ifs at hb ⊢
      · rw [appends_setPhase ha hb] at hrow
        cases hrow
      · have hb' := appends_setPhase ha hb
        rw [hb'] at hrow ⊢
        cases hrow
        exact ⟨rfl, rfl, rfl⟩

/-- An append that has the log to itself is orderly, if its extra is in order. -/
theorem along_turn (sha256 : String → String) {args : AuditArgs} (hordered : args.Ordered)
    (s : AuditState) : Machine.Along (step sha256) AuditAction.Orderly (turn args s.appends.length) s := by
  set i := s.appends.length with hi
  set s₁ := step sha256 (.start args) s with hs₁
  have hready : s₁.appends[i]? = some { args } := List.getElem?_concat_length
  have hs₂ : step sha256 (.advance i) s₁ = s₁.setPhase i (.read s.lastHash) :=
    advance_ready hready rfl
  have hread : (s₁.setPhase i (.read s.lastHash)).appends[i]? =
      some { args, phase := .read s.lastHash } :=
    Table.getElem?_modify_some.mpr (Or.inl ⟨rfl, _, hready, rfl⟩)
  refine ⟨trivial, ?_, ?_, ?_, trivial⟩
  · intro a row ha hphase
    rw [hready] at ha
    cases ha
    cases hphase
  · intro a row ha hphase
    rw [hs₂, hread] at ha
    cases ha
    cases hphase
  · intro a row ha hphase
    rw [hs₂] at ha ⊢
    obtain ⟨hrows, hargs, hrow⟩ := advance_read hread rfl ha hphase
    obtain ⟨extra, -, hevent, -⟩ := AuditLog.newRow_ok hrow
    constructor
    · have hlast : lastHash (step sha256 (.advance i) (s₁.setPhase i (.read s.lastHash))) =
          s.lastHash := by
        show (advance sha256 i (s₁.setPhase i (.read s.lastHash))).rows.getLast?.map _ = _
        rw [hrows]
        rfl
      rw [hevent, hlast]
      rfl
    · rw [hargs]
      exact hordered

/-- The digests of the events below; every other text has some digest of its own. -/
def releaseDigest (text : String) : String :=
  if text = "\x7b\"action\":\"open\",\"actor\":\"root\",\"evidence_version\":\"1\",\"extra\":\x7b\x7d," ++
      "\"prior_hash\":null,\"reason\":\"release\"\x7d" then
    "9eed3359226c7dceaa6f3d8a111bf3c55b41025d3c01977d0b68cb1993e33cd9"
  else if text = "\x7b\"action\":\"close\",\"actor\":\"root\",\"evidence_version\":\"1\",\"extra\":\x7b\x7d," ++
      "\"prior_hash\":\"9eed3359226c7dceaa6f3d8a111bf3c55b41025d3c01977d0b68cb1993e33cd9\"," ++
      "\"reason\":\"release\"\x7d" then
    "cfb2ad3063768ebad54d09e4591ed62e983a4fc86fe24dddf72154e507f3aa0a"
  else if text = "\x7b\"action\":\"close\",\"actor\":\"root\",\"evidence_version\":\"1\",\"extra\":\x7b\x7d," ++
      "\"prior_hash\":null,\"reason\":\"release\"\x7d" then
    "5a8061760f988a8e81520ca010c73b7671430548a863a0d91f1c363f54c507fc"
  else "#" ++ text

def releaseArgs (action : String) : AuditArgs :=
  { actor := "root", action, reason := "release", evidenceVersion := "1" }

/-- The second append starts after the first has returned. -/
def turnsRun : List AuditAction := turn (releaseArgs "open") 0 ++ turn (releaseArgs "close") 1

theorem turnsRun_honest :
    (run releaseDigest turnsRun).rows.length = 2 ∧ (run releaseDigest turnsRun).Honest releaseDigest := by
  have hordered : ∀ action, (releaseArgs action).Ordered := by
    rintro action v ⟨⟩
    exact ⟨List.Pairwise.nil, trivial⟩
  have hlength : (run releaseDigest (turn (releaseArgs "open") 0)).appends.length = 1 := by
    decide +kernel
  have hfirst := along_turn releaseDigest (hordered "open") {}
  have hsecond := along_turn releaseDigest (hordered "close")
    (run releaseDigest (turn (releaseArgs "open") 0))
  rw [hlength] at hsecond
  exact ⟨by decide +kernel, (run_honest releaseDigest turnsRun).1 (hfirst.append hsecond)⟩

/-- Both appends read the last hash before either of them inserts. -/
def forkedRun : List AuditAction :=
  [.start (releaseArgs "open"), .start (releaseArgs "close"), .advance 0, .advance 1, .advance 0,
    .advance 0, .advance 1, .advance 1]

theorem forkedRun_not_honest :
    (run releaseDigest forkedRun).appends.all (fun a => a.phase matches .returned _) = true ∧
      AuditLog.verify releaseDigest (AuditLog.exported (run releaseDigest forkedRun).rows) = .ok false ∧
      ¬ (run releaseDigest forkedRun).Honest releaseDigest := by
  have hverify :
      (run releaseDigest forkedRun).appends.all (fun a => a.phase matches .returned _) = true ∧
        AuditLog.verify releaseDigest (AuditLog.exported (run releaseDigest forkedRun).rows) = .ok false := by
    decide +kernel
  refine ⟨hverify.1, hverify.2, fun h => ?_⟩
  have htrue := h.1
  rw [hverify.2] at htrue
  cases htrue

end AuditState

end Galaxz
