import Galaxz.Policy.Grants

/-!
# Grants are single-use

Every row of the table comes from an `issue` call, keeps its id and what it is for, and goes from unused
to used at most once. The digest determines the origin, the skill and the payload, since the canonical
text does.
-/

namespace Galaxz

/-! ## The canonical text -/

namespace PyValue

theorem serializableItems_insertItem (item : String × PyValue) (xs : List (String × PyValue)) :
    serializableItems (insertItem item xs) = (item.2.serializable && serializableItems xs) := by
  induction xs with
  | nil => rfl
  | cons x xs ih =>
    unfold insertItem
    split_ifs with h
    · rfl
    · obtain ⟨k, v⟩ := x
      rw [serializableItems, ih, serializableItems, Bool.and_left_comm]

mutual

/-- Sorting keys does not change whether a value can be serialised. -/
theorem serializable_sortKeys : ∀ v : PyValue, v.sortKeys.serializable = v.serializable
  | .none => rfl
  | .bool _ => rfl
  | .int _ => rfl
  | .float _ => rfl
  | .str _ => rfl
  | .other => rfl
  | .list xs => serializableList_sortKeys xs
  | .dict items => serializableItems_sortKeys items

theorem serializableList_sortKeys : ∀ xs : List PyValue,
    serializableList (sortKeysList xs) = serializableList xs
  | [] => rfl
  | x :: xs => by
    rw [sortKeysList, serializableList, serializableList, serializable_sortKeys x,
      serializableList_sortKeys xs]

theorem serializableItems_sortKeys : ∀ items : List (String × PyValue),
    serializableItems (sortKeysItems items) = serializableItems items
  | [] => rfl
  | (k, x) :: xs => by
    rw [sortKeysItems, serializableItems_insertItem, serializableItems, serializable_sortKeys x,
      serializableItems_sortKeys xs]

end

end PyValue

/-- The input of the digest with its keys in order. -/
theorem sortKeys_digestInput (origin : Option String) (skill : String) (payload : PyDict) :
    (digestInput origin skill payload).sortKeys =
      .dict [("origin", .str (origin.getD "")), ("payload", PyValue.sortKeys (.dict payload)),
        ("skill", .str skill)] := by
  have hskill : ¬ "skill" ≤ "payload" := by decide
  have horigin : "origin" ≤ "payload" := by decide
  simp [digestInput, PyValue.sortKeys, PyValue.sortKeysItems, PyValue.insertItem, hskill, horigin]

/-- The digest determines what it was made from. -/
theorem GrantTriple.same_of_key {sha256 : String → String} {unknown : String}
    (hsha : Function.Injective sha256) {t t' : GrantTriple} (ht : t.IsJson) (ht' : t'.IsJson)
    (h : t.key sha256 unknown = t'.key sha256 unknown) : t.Same t' := by
  have hdigest : payloadDigest sha256 unknown t.origin t.skill t.payload =
      payloadDigest sha256 unknown t'.origin t'.skill t'.payload := congrArg GrantKey.digest h
  have htext := String.ofList_injective (hsha hdigest)
  have hjson : ∀ u : GrantTriple, u.IsJson →
      (digestInput u.origin u.skill u.payload).sortKeys.serializable = true := by
    intro u hu
    rw [PyValue.serializable_sortKeys]
    unfold GrantTriple.IsJson at hu
    simp [digestInput, PyValue.serializable, PyValue.serializableItems, hu]
  have hvalue := PyValue.textWith_injective (hjson t ht) (hjson t' ht') htext
  rw [sortKeys_digestInput, sortKeys_digestInput] at hvalue
  simp only [PyValue.dict.injEq, List.cons.injEq, Prod.mk.injEq, PyValue.str.injEq, true_and,
    and_true] at hvalue
  exact ⟨hvalue.1, hvalue.2.2, hvalue.2.1⟩

namespace GrantStore

variable {rows : List GrantRow} {key : GrantKey} {now : Datetime}

/-! ## One call -/

theorem usable_iff {row : GrantRow} :
    usable key now row = true ↔ row.key = key ∧ row.consumedAt = none ∧ now.isoformat < row.expiresAt := by
  cases key
  simp [usable, GrantRow.key, and_assoc]

theorem selected_some {row : GrantRow} (h : selected key now rows = some row) :
    row ∈ rows ∧ row.key = key ∧ row.consumedAt = none ∧ now.isoformat < row.expiresAt := by
  obtain ⟨hmem, huse⟩ := List.mem_filter.mp (Table.mem_of_firstBy h)
  exact ⟨hmem, usable_iff.mp huse⟩

/-- What `consume` does: nothing, or it marks the row it selected. -/
theorem consume_cases (key : GrantKey) (now : Datetime) (rows : List GrantRow) :
    (selected key now rows = none ∧ consume key now rows = (false, rows)) ∨
    (∃ row, selected key now rows = some row ∧ (consume key now rows).1 = true ∧
      (consume key now rows).2 =
        Table.updateWhere (fun r => r.grantId = row.grantId) (·.spend now.isoformat) rows) := by
  unfold consume
  cases h : selected key now rows with
  | none =>
    left
    refine ⟨rfl, ?_⟩
    simp only [Option.map_none, reduceCtorEq, decide_false]
    rw [Table.updateWhere_eq_self fun r _ => rfl]
    simp
  | some row =>
    right
    refine ⟨row, rfl, ?_, ?_⟩
    · refine List.any_eq_true.mpr ⟨row, (selected_some h).1, ?_⟩
      simp
    · simp

theorem issue_cases (grantId : Uuid) (key : GrantKey) (ttlS : ℤ) (grantedBy : Option String)
    (now : Datetime) (rows : List GrantRow) :
    ((∃ e, (issue grantId key ttlS grantedBy now rows) = (.error e, rows)) ∧
      issued? (.issue grantId key ttlS grantedBy now) rows = none) ∨
    (∃ expires, (∀ r ∈ rows, r.grantId ≠ grantId) ∧
      issue grantId key ttlS grantedBy now rows =
        (.ok grantId, rows ++ [newRow grantId key grantedBy now expires]) ∧
      issued? (.issue grantId key ttlS grantedBy now) rows = some { grantId, key, expires }) := by
  simp only [issued?, issue]
  cases h : now.addSeconds (.finite ttlS) with
  | error e => exact Or.inl ⟨⟨e, rfl⟩, rfl⟩
  | ok expires =>
    dsimp only
    split_ifs with hid
    · exact Or.inl ⟨⟨_, rfl⟩, rfl⟩
    · refine Or.inr ⟨expires, fun r hr he => hid ?_, rfl, rfl⟩
      exact List.any_eq_true.mpr ⟨r, hr, decide_eq_true he⟩

/-- Everything a call can do: nothing, add a row, or mark one. -/
inductive Change (call : GrantCall) (rows : List GrantRow) : List GrantRow → Prop where
  | none (hissued : issued? call rows = none) (hissues : ∀ k, issues k call rows = false)
      (hconsumes : ∀ k, consumes k call rows = false) : Change call rows rows
  | issued (g : Grant) (row : GrantRow) (hfresh : ∀ r ∈ rows, r.grantId ≠ g.grantId)
      (hid : row.grantId = g.grantId) (hkey : row.key = g.key)
      (hexpires : row.expiresAt = g.expires.isoformat) (hconsumed : row.consumedAt = Option.none)
      (hissued : issued? call rows = some g) (hissues : ∀ k, issues k call rows = decide (g.key = k))
      (hconsumes : ∀ k, consumes k call rows = false) : Change call rows (rows ++ [row])
  | consumed (row : GrantRow) (text : String) (hmem : row ∈ rows) (hunused : row.consumedAt = Option.none)
      (hissued : issued? call rows = Option.none) (hissues : ∀ k, issues k call rows = false)
      (hconsumes : ∀ k, consumes k call rows = decide (row.key = k)) :
      Change call rows (Table.updateWhere (fun r => r.grantId = row.grantId) (·.spend text) rows)

theorem step_change (call : GrantCall) (rows : List GrantRow) : Change call rows (step call rows) := by
  cases call with
  | issue grantId key ttlS grantedBy now =>
    rcases issue_cases grantId key ttlS grantedBy now rows with ⟨⟨e, h⟩, hnone⟩ | ⟨expires, hfresh, h, hsome⟩
    · have hstep : step (.issue grantId key ttlS grantedBy now) rows = rows := by
        simp [step, exec, h]
      rw [hstep]
      exact .none hnone (by simp [issues, exec, h, Except.map]) fun k => rfl
    · have hstep : step (.issue grantId key ttlS grantedBy now) rows =
          rows ++ [newRow grantId key grantedBy now expires] := by simp [step, exec, h]
      rw [hstep]
      exact .issued { grantId, key, expires } _ hfresh rfl rfl rfl rfl hsome
        (by simp [issues, exec, h, Except.map]) fun k => rfl
  | consume key now =>
    rcases consume_cases key now rows with ⟨-, h⟩ | ⟨row, hsel, htrue, h⟩
    · have hstep : step (.consume key now) rows = rows := by simp [step, exec, h]
      rw [hstep]
      exact .none rfl (fun k => rfl) (by simp [consumes, exec, h])
    · obtain ⟨hmem, hkey, hunused, -⟩ := selected_some hsel
      have hstep : step (.consume key now) rows = _ := h
      rw [hstep]
      refine .consumed row _ hmem hunused rfl (fun k => rfl) fun k => ?_
      simp [consumes, exec, htrue, hkey]

/-! ## Runs -/

/-- Using a row keeps the ids. -/
theorem ids_spend (grantId : Uuid) (text : String) (rows : List GrantRow) :
    (Table.updateWhere (fun r : GrantRow => r.grantId = grantId) (fun r => r.spend text) rows).map
      (·.grantId) = rows.map (·.grantId) :=
  Table.map_updateWhere (f := fun r : GrantRow => r.spend text) GrantRow.grantId (fun _ => rfl) rows

theorem step_nodup (call : GrantCall) (rows : List GrantRow) (h : (rows.map (·.grantId)).Nodup) :
    ((step call rows).map (·.grantId)).Nodup := by
  have hchange := step_change call rows
  generalize step call rows = rows' at hchange ⊢
  cases hchange with
  | none _ _ _ => exact h
  | issued g row hfresh hid _ _ _ _ _ _ =>
    exact Table.nodup_append GrantRow.grantId h fun r hr => hid ▸ hfresh r hr
  | consumed row text _ _ _ _ _ =>
    rw [ids_spend]
    exact h

theorem run_nodup (calls : List GrantCall) : ((run calls).map (·.grantId)).Nodup :=
  Machine.run_invariant step_nodup calls [] List.nodup_nil

/-- The unused rows for a key. -/
def unused (key : GrantKey) (rows : List GrantRow) : ℕ :=
  rows.countP fun row => row.key = key && row.consumedAt.isNone

theorem step_unused (key : GrantKey) (call : GrantCall) (rows : List GrantRow) :
    (if consumes key call rows then 1 else 0) + unused key (step call rows) ≤
      (if issues key call rows then 1 else 0) + unused key rows := by
  have hchange := step_change call rows
  generalize step call rows = rows' at hchange ⊢
  unfold unused
  cases hchange with
  | none _ hissues hconsumes => simp [hissues, hconsumes]
  | issued g row _ _ hkey _ hconsumed _ hissues hconsumes =>
    simp only [hissues, hconsumes, List.countP_append, List.countP_singleton, hkey, hconsumed]
    by_cases hg : g.key = key
    · simp only [hg, decide_true, Option.isNone_none, Bool.and_self, if_true, Bool.false_eq_true, if_false]
      omega
    · simp [hg]
  | consumed row text hmem hunused _ hissues hconsumes =>
    simp only [hissues, hconsumes]
    by_cases hrow : row.key = key
    · have hlt := Table.countP_updateWhere_lt (p := fun r : GrantRow => r.key = key && r.consumedAt.isNone)
        (q := fun r => r.grantId = row.grantId) (f := fun r => r.spend text)
        (fun r _ _ hr => absurd hr (by simp [GrantRow.spend])) hmem (by simp) (by simp [hrow, hunused])
        (by simp [GrantRow.spend])
      simp only [hrow, decide_true, if_true, Bool.false_eq_true, if_false]
      omega
    · have hle := Table.countP_updateWhere_le
        (p := fun r : GrantRow => r.key = key && r.consumedAt.isNone)
        (q := fun r => r.grantId = row.grantId) (f := fun r => r.spend text)
        (fun r (_ : r ∈ rows) _ hr => absurd hr (by simp [GrantRow.spend]))
      simp only [hrow, decide_false, Bool.false_eq_true, if_false]
      omega

theorem count_unused (key : GrantKey) (calls : List GrantCall) (rows : List GrantRow) :
    count (consumes key) calls rows + unused key (Machine.run step calls rows) ≤
      count (issues key) calls rows + unused key rows := by
  induction calls generalizing rows with
  | nil => simp [count]
  | cons call calls ih =>
    have hstep := step_unused key call rows
    have hrest := ih (step call rows)
    rw [count, count, Machine.run_cons]
    omega

/-- Every row of the table is a grant that a call of the run issued. -/
theorem rows_issued (calls : List GrantCall) : ∀ rows : List GrantRow,
    ∀ row ∈ Machine.run step calls rows,
      (∃ r ∈ rows, r.grantId = row.grantId ∧ r.key = row.key ∧ r.expiresAt = row.expiresAt) ∨
      (∃ g ∈ issuedBy calls rows, g.grantId = row.grantId ∧ g.key = row.key ∧
        row.expiresAt = g.expires.isoformat) := by
  induction calls with
  | nil => exact fun rows row hrow => Or.inl ⟨row, hrow, rfl, rfl, rfl⟩
  | cons call calls ih =>
    intro rows row hrow
    rw [Machine.run_cons] at hrow
    rcases ih _ row hrow with ⟨r, hr, hid, hkey, hexp⟩ | ⟨g, hg, hrest⟩
    · have hchange := step_change call rows
      generalize hnext : step call rows = rows' at hchange hr
      cases hchange with
      | none _ _ _ => exact Or.inl ⟨r, hr, hid, hkey, hexp⟩
      | issued g row' _ hid' hkey' hexp' _ hissued _ _ =>
        rcases List.mem_append.mp hr with hr | hr
        · exact Or.inl ⟨r, hr, hid, hkey, hexp⟩
        · rw [List.mem_singleton.mp hr] at hid hkey hexp
          refine Or.inr ⟨g, ?_, hid'.symm.trans hid, hkey'.symm.trans hkey, hexp.symm.trans hexp'⟩
          rw [issuedBy, hissued]
          exact List.mem_append_left _ List.mem_cons_self
      | consumed row' text _ _ _ _ _ =>
        obtain ⟨x, hx, hxr⟩ := Table.mem_updateWhere.mp hr
        refine Or.inl ⟨x, hx, ?_⟩
        split_ifs at hxr
        · rw [← hid, ← hkey, ← hexp, ← hxr]
          exact ⟨rfl, rfl, rfl⟩
        · rw [hxr]
          exact ⟨hid, hkey, hexp⟩
    · refine Or.inr ⟨g, ?_, hrest⟩
      rw [issuedBy]
      exact List.mem_append_right _ hg

/-- The row with the id has been used. -/
def Spent (grantId : Uuid) (rows : List GrantRow) : Prop :=
  grantId ∈ rows.map (·.grantId) ∧ ∀ row ∈ rows, row.grantId = grantId → row.consumedAt ≠ none

theorem step_spent {grantId : Uuid} (call : GrantCall) (rows : List GrantRow) (h : Spent grantId rows) :
    Spent grantId (step call rows) := by
  obtain ⟨hmem, hspent⟩ := h
  have hchange := step_change call rows
  generalize step call rows = rows' at hchange ⊢
  cases hchange with
  | none _ _ _ => exact ⟨hmem, hspent⟩
  | issued g row hfresh hid _ _ _ _ _ _ =>
    refine ⟨by rw [List.map_append]; exact List.mem_append_left _ hmem, fun r hr he => ?_⟩
    rcases List.mem_append.mp hr with hr | hr
    · exact hspent r hr he
    · obtain ⟨x, hx, hxid⟩ := List.mem_map.mp hmem
      rw [List.mem_singleton.mp hr, hid] at he
      exact absurd (hxid.trans he.symm) (hfresh x hx)
  | consumed row text _ _ _ _ _ =>
    refine ⟨by rw [ids_spend]; exact hmem, fun r hr he => ?_⟩
    obtain ⟨x, hx, rfl⟩ := Table.mem_updateWhere.mp hr
    split_ifs at he ⊢
    · exact Option.some_ne_none _
    · exact hspent x hx he

/-- A row that `consume` used is used from then on. -/
theorem spent_of_selected {row : GrantRow} (h : selected key now rows = some row) :
    Spent row.grantId (step (.consume key now) rows) := by
  obtain ⟨hmem, -⟩ := selected_some h
  rcases consume_cases key now rows with ⟨hnone, -⟩ | ⟨row', hsel, -, hrows⟩
  · rw [hnone] at h
    cases h
  · rw [h] at hsel
    cases hsel
    show Spent row.grantId (consume key now rows).2
    rw [hrows]
    refine ⟨by rw [ids_spend]; exact List.mem_map.mpr ⟨row, hmem, rfl⟩, fun r hr he => ?_⟩
    obtain ⟨x, hx, rfl⟩ := Table.mem_updateWhere.mp hr
    split_ifs at he ⊢ with hid
    · exact Option.some_ne_none _
    · exact absurd (decide_eq_true he) hid

theorem uses_selected {before : List GrantCall} {g : Grant} (h : Uses before key now g) :
    ∃ row, selected key now (run before) = some row ∧ row.grantId = g.grantId := by
  obtain ⟨-, -, hsel⟩ := h
  obtain ⟨row, hrow, hid⟩ := Option.map_eq_some_iff.mp hsel
  exact ⟨row, hrow, hid⟩

/-- The ids of the grants that a run issues are those of the rows it adds, in order. -/
theorem issuedBy_ids (calls : List GrantCall) : ∀ rows : List GrantRow,
    (Machine.run step calls rows).map (·.grantId) =
      rows.map (·.grantId) ++ (issuedBy calls rows).map (·.grantId) := by
  induction calls with
  | nil => simp [issuedBy]
  | cons call calls ih =>
    intro rows
    have hchange := step_change call rows
    rw [Machine.run_cons, ih, issuedBy, List.map_append, ← List.append_assoc]
    congr 1
    generalize step call rows = rows' at hchange ⊢
    cases hchange with
    | none hissued _ _ => simp [hissued]
    | issued g row _ hid _ _ _ hissued _ _ => simp [hissued, hid]
    | consumed row text _ _ hissued _ _ =>
      rw [hissued, ids_spend]
      exact (List.append_nil _).symm

/-- The grant that a `consume` uses is for the key and has not expired. -/
theorem uses_spec {before : List GrantCall} {g : Grant} (h : Uses before key now g) :
    g.key = key ∧ now < g.expires := by
  obtain ⟨row, hrow, hid⟩ := uses_selected h
  obtain ⟨hmem, hkey, -, hexp⟩ := selected_some hrow
  rcases rows_issued before [] row hmem with ⟨r, hr, -⟩ | ⟨g', hg', hid', hkey', hexp'⟩
  · cases hr
  · -- ids are unique, so the row is that of the grant
    have hnodup : ((issuedBy before []).map (·.grantId)).Nodup := by
      have hids := issuedBy_ids before []
      rw [List.map_nil, List.nil_append] at hids
      rw [← hids]
      exact run_nodup before
    have hsame : g' = g := Table.eq_of_key Grant.grantId hnodup hg' h.2.1 (hid'.trans hid)
    subst hsame
    rw [hexp', Datetime.isoformat_lt_iff] at hexp
    exact ⟨hkey'.trans hkey, hexp⟩

end GrantStore

open GrantStore

/-- A function without collisions that agrees with SHA-256 on the text
`{"origin": "a2a:x", "payload": {"text": "x"}, "skill": "review"}`. -/
def demoSha256 (s : String) : String :=
  if s = "\x7b\"origin\": \"a2a:x\", \"payload\": \x7b\"text\": \"x\"\x7d, \"skill\": \"review\"\x7d" then
    "46306317e7c8532e584ca12ae95d36f14feaf4b01fc5f45c971d70fdfb9549d5"
  else "#" ++ s

theorem demoSha256_injective : Function.Injective demoSha256 := by
  have hhash : ∀ s : String, "46306317e7c8532e584ca12ae95d36f14feaf4b01fc5f45c971d70fdfb9549d5" ≠ "#" ++ s := by
    intro s h
    have hhead := congrArg (fun t : String => t.toList.head?) h
    simp at hhead
  intro s t h
  unfold demoSha256 at h
  split_ifs at h with hs ht ht
  · exact hs.trans ht.symm
  · exact absurd h (hhash t)
  · exact absurd h.symm (hhash s)
  · simpa using h

/-- A task that a reviewer approved. -/
def demoTriple : GrantTriple :=
  { origin := some "a2a:x", skill := "review", payload := [("text", .str "x")] }

/-- The approval and two attempts to use it. -/
def demoGrantCalls : List GrantCall :=
  [.issue 1 (demoTriple.key demoSha256 "") 3600 none (.ofMicros 63902822400000000),
    .consume (demoTriple.key demoSha256 "") (.ofMicros 63902822401000000),
    .consume (demoTriple.key demoSha256 "") (.ofMicros 63902822402000000)]

end Galaxz
