/-!
# Keyed lists

A list of entries with keys, in the order in which they were added.  Several entries may
have one key; the first of them is the one that is found.

## Main definitions

* `replace key value entries` — a new value for the first entry of a key.
* `remove key entries` — the list without the first entry of a key.

## Main results

* `lookup_replace_self`, `lookup_replace_of_ne`, `lookup_remove_of_ne` — what is found
  afterwards.
-/

namespace PullIter.Keyed

variable {κ α : Type} [DecidableEq κ]

/-- Give the first entry of a key a new value.  A key that is not there is not added. -/
def replace (key : κ) (value : α) : List (κ × α) → List (κ × α)
  | [] => []
  | (other, old) :: rest =>
    if key = other then (other, value) :: rest else (other, old) :: replace key value rest

/-- Take the first entry of a key away. -/
def remove (key : κ) : List (κ × α) → List (κ × α)
  | [] => []
  | (other, old) :: rest => if key = other then rest else (other, old) :: remove key rest

/-- A replaced value is the one that is found. -/
theorem lookup_replace_self {key : κ} {value old : α} {entries : List (κ × α)}
    (h : entries.lookup key = some old) : (replace key value entries).lookup key = some value := by
  induction entries with
  | nil => simp at h
  | cons entry rest ih =>
    obtain ⟨other, held⟩ := entry
    by_cases hk : key = other
    · subst hk; simp [replace]
    · have hb : (key == other) = false := by simpa using hk
      rw [List.lookup_cons, hb] at h
      rw [replace, if_neg hk, List.lookup_cons, hb]
      exact ih h

/-- A replacement leaves every other key alone. -/
theorem lookup_replace_of_ne {key other : κ} {value : α} {entries : List (κ × α)}
    (h : other ≠ key) : (replace key value entries).lookup other = entries.lookup other := by
  induction entries with
  | nil => rfl
  | cons entry rest ih =>
    obtain ⟨found, held⟩ := entry
    by_cases hk : key = found
    · subst hk
      have hb : (other == key) = false := by simpa using h
      simp [replace, List.lookup_cons, hb]
    · rw [replace, if_neg hk, List.lookup_cons, List.lookup_cons, ih]

/-- A removal leaves every other key alone. -/
theorem lookup_remove_of_ne {key other : κ} {entries : List (κ × α)} (h : other ≠ key) :
    (remove key entries).lookup other = entries.lookup other := by
  induction entries with
  | nil => rfl
  | cons entry rest ih =>
    obtain ⟨found, held⟩ := entry
    by_cases hk : key = found
    · subst hk
      have hb : (other == key) = false := by simpa using h
      simp [remove, List.lookup_cons, hb]
    · rw [remove, if_neg hk, List.lookup_cons, List.lookup_cons, ih]

end PullIter.Keyed
