import Galaxz.Lib.Tiling

/-!
# `core/secrets/store.py`: `redact_secrets`

Secrets are replaced in a text, one after the other.
-/

namespace Galaxz

open Replace

/-- `"[REDACTED]"`. -/
def redactedMark : List Char := "[REDACTED]".toList

/-- The loop of `redact_secrets`, on elements that have a character. -/
def redactLoop {α : Type} (key : α → Char) (mark : List α) (text : List α) (values : List String) : List α :=
  values.foldl (fun redacted value =>
    if value ≠ "" then replace key value.toList mark redacted else redacted) text

/-- `redact_secrets`. -/
def redactSecrets (text : String) (values : List String) : String :=
  String.ofList (redactLoop id redactedMark text.toList values)

/-- The places of the text that are left: the loop on characters that know where they come from. -/
def keptPlaces (text : String) (values : List String) : List ℕ :=
  places (redactLoop (·.1) (inserted redactedMark) (traced text.toList) values)

/-- The secret stands in the text at the place. -/
def OccursAt (value text : String) (i : ℕ) : Prop := value.toList <+: text.toList.drop i

/-- The place is in an occurrence of a secret. -/
def InSecret (text : String) (values : List String) (i : ℕ) : Prop :=
  ∃ value ∈ values, ∃ j, OccursAt value text j ∧ j ≤ i ∧ i < j + value.length

/-- The secrets are not empty and share no character with the mark. -/
def PlainSecrets (values : List String) : Prop := ∀ value ∈ values, value ≠ "" ∧ ∀ c ∈ value.toList, c ∉ redactedMark

/-- Whole secrets are hidden, in every order. -/
structure HidesSecrets (text : String) (values : List String) : Prop where
  order : ∀ others, others.Perm values → redactSecrets text others = redactSecrets text values
  gone : ∀ value ∈ values, ¬ value.toList <:+: (redactSecrets text values).toList
  whole : ∀ i ∈ keptPlaces text values, ¬ InSecret text values i

/-- The leftmost occurrences of the secrets do not overlap, and cover all occurrences. -/
structure SeparateSecrets (text : String) (values : List String) : Prop where
  apart : ∀ v ∈ values, ∀ w ∈ values, v ≠ w → ∀ i ∈ leftmost v.toList text.toList,
    ∀ j ∈ leftmost w.toList text.toList, i + v.length ≤ j ∨ j + w.length ≤ i
  covered : ∀ i, InSecret text values i → ∃ v ∈ values, ∃ j ∈ leftmost v.toList text.toList, j ≤ i ∧ i < j + v.length

end Galaxz
