import PullIter.Compiler.Finish

/-!
# What a unit keeps registered

Requests only ever add to the registry of a unit.  A function that has a name keeps it, an
entry point that has a provider keeps it, and the provider is of the sort that the kind of the
entry point asks for: a lowered body of its own, or the symbol that stands for it.

## Main definitions

* `Registry.Extends` — a registry with at least the functions of another.
* `Registry.Consistent` — keys lead to functions that are what they are the keys of.

## Main results

* `Consistent.internImported`, `Consistent.internLowered`, `Consistent.bindImported`,
  `Consistent.setId` — every access of a request keeps a registry consistent.
-/

namespace PullIter

namespace Registry

/-! ### Names that stay -/

/-- Every function of the first registry is in the second, with its identity if it has one. -/
structure Extends (before after : Registry) : Prop where
  name : ∀ {key name}, before.name? key = some name → after.name? key = some name
  id : ∀ {key}, (before.id? key).isSome → (after.id? key).isSome

theorem Extends.refl (registry : Registry) : registry.Extends registry :=
  ⟨fun h => h, fun h => h⟩

theorem Extends.trans {a b c : Registry} (h : a.Extends b) (h' : b.Extends c) : a.Extends c :=
  ⟨fun hn => h'.name (h.name hn), fun hi => h'.id (h.id hi)⟩

/-- A key that has a name is below the next key. -/
theorem lt_nextKey_of_name? {registry : Registry} {key : Nat} {name : FunctionName}
    (h : registry.name? key = some name) : key < registry.nextKey := by
  unfold name? at h
  rw [Option.map_eq_some_iff] at h
  obtain ⟨f, hf, -⟩ := h
  exact (List.getElem?_eq_some_iff.mp hf).1

/-- Adding a function names its key and no other. -/
theorem name?_add (registry : Registry) (name : FunctionName) (key : Nat) :
    (registry.add name).name? key =
      if key = registry.nextKey then some name else registry.name? key := by
  unfold add name? nextKey
  rcases Nat.lt_trichotomy key registry.functions.length with h | h | h
  · rw [List.getElem?_append_left h, if_neg (by omega)]
  · subst h; simp
  · rw [if_neg (by omega), List.getElem?_eq_none (by simp; omega), List.getElem?_eq_none (by omega)]

theorem extends_add (registry : Registry) (name : FunctionName) :
    registry.Extends (registry.add name) := by
  constructor
  · intro key name' h
    rw [name?_add, if_neg (Nat.ne_of_lt (lt_nextKey_of_name? h)), h]
  · intro key h
    unfold id? at h ⊢
    cases hf : registry.functions[key]? with
    | none => simp [hf] at h
    | some f =>
      rw [add, List.getElem?_append_left (List.getElem?_eq_some_iff.mp hf).1, hf]
      simpa [hf] using h

theorem extends_setId (registry : Registry) (key id : Nat) :
    registry.Extends (registry.setId key id) := by
  constructor
  · intro other name h
    rw [name?_setId, h]
  · intro other h
    by_cases hk : other = key
    · subst hk
      have hlt : other < registry.nextKey := by
        cases hf : registry.functions[other]? with
        | none => simp [id?, hf] at h
        | some f => exact (List.getElem?_eq_some_iff.mp hf).1
      simp [id?_setId_self hlt]
    · rwa [id?_setId_of_ne registry hk]

theorem extends_internImported (registry : Registry) (symbol : String) :
    registry.Extends (registry.internImported symbol).2 := by
  unfold internImported
  split
  · exact Extends.refl registry
  · exact ⟨(extends_add registry _).name, (extends_add registry _).id⟩

theorem extends_internLowered (registry : Registry) (entry : Entry) :
    registry.Extends (registry.internLowered entry).2 := by
  unfold internLowered
  split
  · exact Extends.refl registry
  · exact ⟨(extends_add registry _).name, (extends_add registry _).id⟩

/-! ### Keys -/

/-- A new symbol leaves the keys of the others alone. -/
theorem importedKey?_internImported_of_ne (registry : Registry) {symbol other : String}
    (h : other ≠ symbol) :
    (registry.internImported symbol).2.importedKey? other = registry.importedKey? other := by
  unfold internImported
  split
  · rfl
  · have hb : (other == symbol) = false := by simpa using h
    simp [importedKey?, List.lookup_cons, hb, add]

/-- The key of a symbol, once it has one, stays. -/
theorem importedKey?_internImported_of_some {registry : Registry} {symbol other : String}
    {key : Nat} (h : registry.importedKey? other = some key) :
    (registry.internImported symbol).2.importedKey? other = some key := by
  by_cases hs : other = symbol
  · subst hs
    unfold internImported
    rw [h]
    exact h
  · rw [importedKey?_internImported_of_ne registry hs, h]

/-- A new entry point leaves the keys of the others alone. -/
theorem entryKey?_internLowered_of_ne (registry : Registry) {entry other : Entry}
    (h : other ≠ entry) :
    (registry.internLowered entry).2.entryKey? other = registry.entryKey? other := by
  unfold internLowered
  split
  · rfl
  · have hb : (other == entry) = false := by simpa using h
    simp [entryKey?, List.lookup_cons, hb, add]

theorem entryKey?_bindImported_of_ne (registry : Registry) {entry other : Entry} (symbol : String)
    (h : other ≠ entry) :
    (registry.bindImported entry symbol).2.entryKey? other = registry.entryKey? other := by
  have hb : (other == entry) = false := by simpa using h
  unfold bindImported
  simp only [entryKey?, List.lookup_cons, hb]
  exact entryKey?_internImported registry symbol other

@[simp] theorem importedKey?_internLowered (registry : Registry) (entry : Entry) (symbol : String) :
    (registry.internLowered entry).2.importedKey? symbol = registry.importedKey? symbol := by
  unfold internLowered
  split <;> rfl

@[simp] theorem importedKey?_bindImported (registry : Registry) (entry : Entry)
    (symbol other : String) :
    (registry.bindImported entry symbol).2.importedKey? other =
      (registry.internImported symbol).2.importedKey? other := rfl

/-! ### Consistency -/

/-- What the key of an entry point leads to: the body of that entry point, or the symbol that the
kind of the entry point names. -/
def Provides (registry : Registry) (entry : Entry) (key : Nat) : Prop :=
  (entry.provision = .lowered ∧ registry.name? key = some (.lowered entry)) ∨
    ∃ symbol, entry.provision = .imported symbol ∧ registry.name? key = some (.imported symbol) ∧
      registry.importedKey? symbol = some key

/-- Keys lead to functions that are what they are the keys of. -/
structure Consistent (registry : Registry) : Prop where
  entry : ∀ {entry key}, registry.entryKey? entry = some key → registry.Provides entry key
  symbol : ∀ {symbol key}, registry.importedKey? symbol = some key →
    registry.name? key = some (.imported symbol)
  lowered : ∀ {entry key}, registry.name? key = some (.lowered entry) →
    registry.entryKey? entry = some key

theorem Provides.mono {before after : Registry} (h : before.Extends after)
    (hs : ∀ {symbol key}, before.importedKey? symbol = some key →
      after.importedKey? symbol = some key) {entry : Entry} {key : Nat}
    (hp : before.Provides entry key) : after.Provides entry key := by
  rcases hp with ⟨hl, hn⟩ | ⟨symbol, hi, hn, hk⟩
  · exact .inl ⟨hl, h.name hn⟩
  · exact .inr ⟨symbol, hi, h.name hn, hs hk⟩

theorem consistent_empty : Consistent empty := by
  constructor
  · intro entry key h; simp [empty, entryKey?] at h
  · intro symbol key h; simp [empty, importedKey?] at h
  · intro entry key h; simp [empty, name?] at h

/-- The name of the key that a symbol is interned under. -/
theorem Consistent.name?_internImported {registry : Registry} (h : registry.Consistent)
    (symbol : String) : (registry.internImported symbol).2.name?
      (registry.internImported symbol).1 = some (.imported symbol) := by
  unfold Registry.internImported
  split
  · next key hk => exact h.symbol hk
  · have hadd := name?_add registry (.imported symbol) registry.nextKey
    rw [if_pos rfl] at hadd
    exact hadd

theorem Consistent.internImported {registry : Registry} (h : registry.Consistent)
    (symbol : String) : (registry.internImported symbol).2.Consistent := by
  have hext := extends_internImported registry symbol
  constructor
  · intro entry key hk
    rw [entryKey?_internImported] at hk
    exact (h.entry hk).mono hext importedKey?_internImported_of_some
  · intro other key hk
    by_cases hs : other = symbol
    · subst hs
      rw [importedKey?_internImported] at hk
      cases hk
      exact h.name?_internImported other
    · rw [importedKey?_internImported_of_ne registry hs] at hk
      exact hext.name (h.symbol hk)
  · intro entry key hn
    rw [entryKey?_internImported]
    unfold Registry.internImported at hn
    split at hn
    · exact h.lowered hn
    · -- the only new function is a symbol
      change (registry.add _).name? key = _ at hn
      rw [name?_add] at hn
      split at hn
      · cases hn
      · exact h.lowered hn

theorem Consistent.internLowered {registry : Registry} (h : registry.Consistent) {entry : Entry}
    (hl : entry.provision = .lowered) : (registry.internLowered entry).2.Consistent := by
  have hext := extends_internLowered registry entry
  have hkeep : ∀ {symbol key}, registry.importedKey? symbol = some key →
      (registry.internLowered entry).2.importedKey? symbol = some key := by
    intro symbol key hk
    rwa [importedKey?_internLowered]
  constructor
  · -- what an entry point is filed under
    intro other key hk
    by_cases he : other = entry
    · subst he
      rw [entryKey?_internLowered] at hk
      cases hk
      refine .inl ⟨hl, ?_⟩
      unfold Registry.internLowered
      split
      · next key hkey =>
        rcases h.entry hkey with ⟨-, hn⟩ | ⟨symbol, hi, -⟩
        · exact hn
        · rw [hl] at hi; cases hi
      · have hadd := name?_add registry (.lowered other) registry.nextKey
        rw [if_pos rfl] at hadd
        exact hadd
    · rw [entryKey?_internLowered_of_ne registry he] at hk
      exact (h.entry hk).mono hext hkeep
  · -- the symbols stay
    intro symbol key hk
    rw [importedKey?_internLowered] at hk
    exact hext.name (h.symbol hk)
  · -- a name of a lowered body was there before, or is the new one
    intro other key hn
    by_cases he : other = entry
    · subst he
      rw [entryKey?_internLowered]
      cases hk : registry.entryKey? other with
      | some known =>
        simp only [Registry.internLowered, hk] at hn ⊢
        rw [← hk, h.lowered hn]
      | none =>
        simp only [Registry.internLowered, hk] at hn ⊢
        change (registry.add _).name? key = _ at hn
        rw [name?_add] at hn
        split at hn
        · next hkey => rw [hkey]
        · rw [h.lowered hn] at hk; cases hk
    · rw [entryKey?_internLowered_of_ne registry he]
      unfold Registry.internLowered at hn
      split at hn
      · exact h.lowered hn
      · change (registry.add _).name? key = _ at hn
        rw [name?_add] at hn
        split at hn
        · cases hn; exact absurd rfl he
        · exact h.lowered hn

theorem Consistent.bindImported {registry : Registry} (h : registry.Consistent) {entry : Entry}
    {symbol : String} (hp : entry.provision = .imported symbol) :
    (registry.bindImported entry symbol).2.Consistent := by
  have hc := h.internImported symbol
  constructor
  · intro other key hk
    by_cases he : other = entry
    · subst he
      rw [entryKey?_bindImported] at hk
      cases hk
      exact .inr ⟨symbol, hp, h.name?_internImported symbol,
        importedKey?_internImported registry symbol⟩
    · rw [entryKey?_bindImported_of_ne registry symbol he] at hk
      exact hc.entry (by rw [entryKey?_internImported]; exact hk)
  · intro other key hk
    exact hc.symbol hk
  · intro other key hn
    have hkey := hc.lowered hn
    by_cases he : other = entry
    · subst he
      -- a bound entry point has no body of its own
      rcases hc.entry hkey with ⟨hl, -⟩ | ⟨_, _, hn', _⟩
      · rw [hp] at hl; cases hl
      · rw [show (registry.internImported symbol).2.name? key = _ from hn] at hn'; cases hn'
    · rw [entryKey?_bindImported_of_ne registry symbol he]
      rwa [entryKey?_internImported] at hkey

theorem Consistent.setId {registry : Registry} (h : registry.Consistent) (key id : Nat) :
    (registry.setId key id).Consistent := by
  constructor
  · intro entry other hk
    exact (h.entry hk).mono (extends_setId registry key id) fun hs => hs
  · intro symbol other hk
    rw [name?_setId]
    exact h.symbol hk
  · intro entry other hn
    rw [name?_setId] at hn
    exact h.lowered hn

end Registry

end PullIter
