import Galaxz.Policy.Proofs.GrantProofs
import Galaxz.Security.Audit

/-!
# The audit chain

What `verify` accepts is a hash chain. Its marks are the digests, a digest determines the canonical text
of its event, and the text determines the event; so the last digest determines the whole history.
-/

namespace Galaxz

namespace AuditLog

variable {sha256 : String → String}

/-! ## What `verify` accepts -/

/-- What an event names as the one before it. -/
def priorOf (item : AuditItem) : PyValue := item.event.get "prior_hash"

/-- The digest of an event, as the next event names it. -/
def markOf (sha256 : String → String) (item : AuditItem) : PyValue :=
  .str (sha256 (compactText (PyValue.dict item.event).sortKeys))

/-- The event has a canonical text, and the hash of the item is its digest. -/
def Hashed (sha256 : String → String) (item : AuditItem) : Prop :=
  PyValue.serializableItems item.event = true ∧ item.eventHash = markOf sha256 item

theorem pyEq_str_iff (v : PyValue) (s : String) : PyValue.pyEq v (.str s) = true ↔ v = .str s := by
  cases v with
  | str t => simp [PyValue.pyEq, eq_comm]
  | _ => simp [PyValue.pyEq, PyValue.number]

theorem pyEq_none_iff (v : PyValue) : PyValue.pyEq v .none = true ↔ v = .none := by
  cases v with
  | _ => simp [PyValue.pyEq, PyValue.number]

theorem str_pyEq_iff (v : PyValue) (s : String) : PyValue.pyEq (.str s) v = true ↔ v = .str s := by
  simp [PyValue.pyEq]

/-- `verify` accepts exactly the hash chains whose items carry the digests of their events. -/
theorem verifyFrom_iff (items : List AuditItem) : ∀ prior : PyValue,
    (prior = .none ∨ ∃ s, prior = .str s) →
    (verifyFrom sha256 prior items = .ok true ↔
      HashChain.Linked priorOf (markOf sha256) prior items ∧ ∀ item ∈ items, Hashed sha256 item) := by
  induction items with
  | nil => exact fun _ _ => ⟨fun _ => ⟨trivial, fun _ h => absurd h List.not_mem_nil⟩, fun _ => rfl⟩
  | cons item items ih =>
    intro prior hprior
    have hprior' : PyValue.pyEq (item.event.get "prior_hash") prior = true ↔ priorOf item = prior := by
      rcases hprior with rfl | ⟨s, rfl⟩
      · exact pyEq_none_iff _
      · exact pyEq_str_iff _ _
    have hrest := ih (markOf sha256 item) (Or.inr ⟨_, rfl⟩)
    rw [List.forall_mem_cons]
    unfold verifyFrom
    by_cases hp : priorOf item = prior
    · rw [if_pos (hprior'.mpr hp)]
      by_cases hs : PyValue.serializableItems item.event = true
      · have hencode : encode item.event = .ok (compactText (PyValue.dict item.event).sortKeys) := if_pos hs
        rw [hencode]
        show (if PyValue.pyEq (markOf sha256 item) item.eventHash then
          verifyFrom sha256 (markOf sha256 item) items else .ok false) = .ok true ↔ _
        have hmark : PyValue.pyEq (markOf sha256 item) item.eventHash = true ↔
            item.eventHash = markOf sha256 item := str_pyEq_iff _ _
        by_cases hh : item.eventHash = markOf sha256 item
        · rw [if_pos (hmark.mpr hh), hrest]
          constructor
          · rintro ⟨hlinked, hall⟩
            exact ⟨⟨hp, hlinked⟩, ⟨hs, hh⟩, hall⟩
          · rintro ⟨⟨-, hlinked⟩, -, hall⟩
            exact ⟨hlinked, hall⟩
        · rw [if_neg (mt hmark.mp hh)]
          constructor
          · intro h
            cases h
          · rintro ⟨-, ⟨-, hh'⟩, -⟩
            exact absurd hh' hh
      · have hencode : encode item.event = .error (.typeError "Object is not JSON serializable") := if_neg hs
        rw [hencode]
        constructor
        · intro h
          cases h
        · rintro ⟨-, ⟨hs', -⟩, -⟩
          exact absurd hs' hs
    · rw [if_neg (mt hprior'.mp hp)]
      constructor
      · intro h
        cases h
      · rintro ⟨⟨hp', -⟩, -⟩
        exact absurd hp' hp

theorem verify_iff (items : List AuditItem) :
    verify sha256 items = .ok true ↔
      HashChain.Linked priorOf (markOf sha256) .none items ∧ ∀ item ∈ items, Hashed sha256 item :=
  verifyFrom_iff items .none (Or.inl rfl)

/-! ## Tampering -/

theorem compactText_injective {a b : PyValue} (ha : a.serializable = true) (hb : b.serializable = true)
    (h : compactText a = compactText b) : a = b :=
  PyValue.textWith_injective ha hb (String.ofList_injective h)

/-- The digest of an event determines the event. -/
theorem sameEvent_of_mark (hsha : Function.Injective sha256) {a b : AuditItem}
    (ha : PyValue.serializableItems a.event = true) (hb : PyValue.serializableItems b.event = true)
    (h : markOf sha256 a = markOf sha256 b) : SameEvent a b := by
  have htext := hsha (PyValue.str.inj h)
  refine compactText_injective ?_ ?_ htext
  · rw [PyValue.serializable_sortKeys]
    exact ha
  · rw [PyValue.serializable_sortKeys]
    exact hb

/-- What an event of a chain may name. -/
def IsPrior (v : PyValue) : Prop := v = .none ∨ ∃ s, v = .str s

/-- The same event names the same one before it. -/
theorem priorOf_eq_of_sameEvent {a b : AuditItem} (ha : IsPrior (priorOf a)) (h : SameEvent a b) :
    priorOf a = priorOf b := by
  have hitems : PyValue.sortKeysItems a.event = PyValue.sortKeysItems b.event := PyValue.dict.inj h
  have hsorted : (priorOf a).sortKeys = (priorOf b).sortKeys := by
    unfold priorOf
    rw [← PyDict.get_sortKeysItems, ← PyDict.get_sortKeysItems, hitems]
  rcases ha with hnone | ⟨s, hs⟩
  · rw [hnone] at hsorted ⊢
    cases hb : priorOf b with
    | none => rfl
    | _ =>
      rw [hb] at hsorted
      cases hsorted
  · rw [hs] at hsorted ⊢
    exact ((PyValue.sortKeys_eq_str_iff _ s).mp hsorted.symm).symm

/-- The mark of the last event is its hash. -/
theorem tip_of_last {items : List AuditItem} {item : AuditItem} (hlast : items.getLast? = some item)
    (hhashed : ∀ item ∈ items, Hashed sha256 item) :
    HashChain.tip (markOf sha256) .none items = item.eventHash := by
  obtain ⟨before, rfl⟩ := List.getLast?_eq_some_iff.mp hlast
  rw [HashChain.tip_concat]
  exact (hhashed item (by simp)).2.symm

/-- SHA-256 of the texts of two events, and something else for every other text. -/
def demoDigest (s : String) : String :=
  if s = "\x7b\"action\":\"open\",\"prior_hash\":null\x7d" then
    "be1c5b34f953aa8bd5cee5b061dd1953d4f392986908008b031bdaf5bb6e4ceb"
  else if s = "\x7b\"action\":\"close\",\"prior_hash\":\"" ++
      "be1c5b34f953aa8bd5cee5b061dd1953d4f392986908008b031bdaf5bb6e4ceb\"\x7d" then
    "ab6a90172b4a1733ed6a15ca8c6fd053ad7f1b93830e754bab922680894d4ddd"
  else "#" ++ s

theorem demoDigest_injective : Function.Injective demoDigest := by
  have hother : ∀ t s : String, t.toList.head? ≠ some '#' → t ≠ "#" ++ s := by
    intro t s ht h
    rw [h] at ht
    exact ht (by simp)
  intro s t h
  unfold demoDigest at h
  split_ifs at h with hs ht ht' hs' ht ht' ht ht'
  · exact hs.trans ht.symm
  · exact absurd h (by decide)
  · exact absurd h (hother _ t (by decide))
  · exact absurd h (by decide)
  · exact hs'.trans ht'.symm
  · exact absurd h (hother _ t (by decide))
  · exact absurd h.symm (hother _ s (by decide))
  · exact absurd h.symm (hother _ s (by decide))
  · simpa using h

/-- A history of two events. -/
def demoHistory : List AuditItem :=
  [⟨[("action", .str "open"), ("prior_hash", .none)],
      .str "be1c5b34f953aa8bd5cee5b061dd1953d4f392986908008b031bdaf5bb6e4ceb"⟩,
    ⟨[("action", .str "close"),
        ("prior_hash", .str "be1c5b34f953aa8bd5cee5b061dd1953d4f392986908008b031bdaf5bb6e4ceb")],
      .str "ab6a90172b4a1733ed6a15ca8c6fd053ad7f1b93830e754bab922680894d4ddd"⟩]

/-- The same history, with the items of its events the other way round. -/
def demoHistoryReversed : List AuditItem :=
  demoHistory.map fun item => { item with event := item.event.reverse }

end AuditLog

end Galaxz
