import PullIter.Proofs.Unit.Growth
import PullIter.Registry.Script
import Mathlib.Data.List.Induction
import Mathlib.Data.List.Nodup

/-!
# What a registry tells of its history

A registry finds functions by entry points and by symbols, and it is asked in any order: an entry
point may be bound to a symbol after it was lowered, lowered after it was bound, and bound to
several symbols in turn, and several entry points may share one.  What it answers is told by the
steps that were made on it, whatever lay between them.

A key is a word of 32 bits on a machine and a number here.  Each step makes one function at most, so
the two are the same as long as there were no more than 2³² steps (`key_lt_of_length_le`).

## Main definitions

* `Registry.after` — the registry after some steps.
* `Registry.Distinct` — every function has one key.
* `Registry.Reflects` — a registry answers what its history says.

## Main results

* `Distinct.act` — every step keeps the functions apart.
* `key_lt_of_length_le` — the keys of a history that is not too long fit into 32 bits.
* `entryKey?_act_of_some` — an entry point keeps its function until it is bound again.
* `reflects_history` — **a registry reflects its history.**
-/

namespace PullIter.Registry

/-- The registry after some steps on a registry without functions. -/
def after (history : List Action) : Registry :=
  history.foldl (fun registry action => (registry.act action).2) empty

@[simp] theorem after_nil : after [] = empty := rfl

theorem after_append (history later : List Action) :
    after (history ++ later) = later.foldl (fun registry action => (registry.act action).2)
      (after history) :=
  List.foldl_append ..

theorem after_snoc (history : List Action) (action : Action) :
    after (history ++ [action]) = ((after history).act action).2 := after_append ..

/-! ### Names -/

/-- No step renames a function or takes one away. -/
theorem extends_act (registry : Registry) (action : Action) :
    registry.Extends (registry.act action).2 := by
  cases action with
  | internLowered entry => exact extends_internLowered registry entry
  | bindImported entry symbol =>
    have h := extends_internImported registry symbol
    exact ⟨h.name, h.id⟩
  | internImported symbol => exact extends_internImported registry symbol
  | setId key id => exact extends_setId registry key id
  | entryKey | importedKey | key | lowered => exact Extends.refl registry

theorem extends_after (history later : List Action) :
    (after history).Extends (after (history ++ later)) := by
  induction later using List.reverseRecOn with
  | nil => rw [List.append_nil]; exact Extends.refl _
  | append_singleton later action ih =>
    rw [← List.append_assoc, after_snoc]
    exact ih.trans (extends_act _ action)

/-- A step makes one function at most. -/
theorem length_functions_act_le (registry : Registry) (action : Action) :
    (registry.act action).2.functions.length ≤ registry.functions.length + 1 := by
  have hadd : ∀ name, (registry.add name).functions.length = registry.functions.length + 1 :=
    fun _ => List.length_append
  have himported : ∀ symbol,
      (registry.internImported symbol).2.functions.length ≤ registry.functions.length + 1 := by
    intro symbol
    unfold internImported
    split
    · exact Nat.le_succ _
    · exact Nat.le_of_eq (hadd _)
  cases action with
  | internLowered entry =>
    show (registry.internLowered entry).2.functions.length ≤ _
    unfold internLowered
    split
    · exact Nat.le_succ _
    · exact Nat.le_of_eq (hadd _)
  | internImported symbol => exact himported symbol
  | bindImported entry symbol => exact himported symbol
  | setId key id =>
    show (registry.functions.modify key _).length ≤ _
    rw [List.length_modify]
    exact Nat.le_succ _
  | entryKey | importedKey | key | lowered => exact Nat.le_succ _

theorem length_functions_after_le (history : List Action) :
    (after history).functions.length ≤ history.length := by
  induction history using List.reverseRecOn with
  | nil => exact Nat.le_refl _
  | append_singleton history action ih =>
    rw [after_snoc, List.length_append]
    exact Nat.le_trans (length_functions_act_le _ action) (Nat.succ_le_succ ih)

/-- **The keys of a history** of at most 2³² steps fit into a word of 32 bits. -/
theorem key_lt_of_length_le {history : List Action} (h : history.length ≤ UInt32.size) {key : Nat}
    (hk : ((after history).name? key).isSome) : key < UInt32.size := by
  rw [name?, Option.isSome_map, isSome_getElem?] at hk
  exact Nat.lt_of_lt_of_le (Nat.lt_of_lt_of_le hk (length_functions_after_le history)) h

/-- The key that a step returns. -/
def returned? (registry : Registry) : Action → Option Nat
  | .internLowered entry => some (registry.internLowered entry).1
  | .bindImported entry symbol => some (registry.bindImported entry symbol).1
  | .internImported symbol => some (registry.internImported symbol).1
  | .entryKey entry => registry.entryKey? entry
  | .importedKey symbol => registry.importedKey? symbol
  | .setId .. | .key _ | .lowered => none

/-! ### Every function has one key -/

/-- A symbol is the function of one key, and so is the lowered body of an entry point.  An entry
point that has a body has a function, though that may be another one by now. -/
structure Distinct (registry : Registry) : Prop where
  symbol : ∀ {symbol key}, registry.importedKey? symbol = some key ↔
    registry.name? key = some (.imported symbol)
  body : ∀ {entry key other}, registry.name? key = some (.lowered entry) →
    registry.name? other = some (.lowered entry) → key = other
  registered : ∀ {entry key}, registry.name? key = some (.lowered entry) →
    (registry.entryKey? entry).isSome

theorem distinct_empty : empty.Distinct := by
  constructor
  · intro symbol key
    simp [empty, importedKey?, name?]
  · intro entry key other h
    simp [empty, name?] at h
  · intro entry key h
    simp [empty, name?] at h

/-- There is no function under the next key. -/
theorem name?_nextKey (registry : Registry) : registry.name? registry.nextKey = none := by
  rw [name?, nextKey, List.getElem?_eq_none (Nat.le_refl _), Option.map_none]

theorem name?_internImported_of_none {registry : Registry} {symbol : String}
    (h : registry.importedKey? symbol = none) (key : Nat) :
    (registry.internImported symbol).2.name? key =
      if key = registry.nextKey then some (.imported symbol) else registry.name? key := by
  unfold internImported
  rw [h]
  exact name?_add registry _ key

theorem name?_internLowered_of_none {registry : Registry} {entry : Entry}
    (h : registry.entryKey? entry = none) (key : Nat) :
    (registry.internLowered entry).2.name? key =
      if key = registry.nextKey then some (.lowered entry) else registry.name? key := by
  unfold internLowered
  rw [h]
  exact name?_add registry _ key

/-- The function that a body is made for: a new one, named after the entry point. -/
theorem name?_internLowered_new {registry : Registry} {entry : Entry}
    (h : registry.entryKey? entry = none) :
    (registry.internLowered entry).2.name? (registry.internLowered entry).1 =
      some (.lowered entry) := by
  rw [name?_internLowered_of_none h, internLowered, h, if_pos rfl]

theorem internLowered_of_some {registry : Registry} {entry : Entry} {key : Nat}
    (h : registry.entryKey? entry = some key) :
    registry.internLowered entry = (key, registry) := by
  unfold internLowered
  rw [h]

namespace Distinct

variable {registry : Registry}

/-- The names of a registry decide. -/
theorem of_names {other : Registry} (h : registry.Distinct)
    (hname : ∀ key, other.name? key = registry.name? key)
    (hsymbol : ∀ symbol, other.importedKey? symbol = registry.importedKey? symbol)
    (hentry : ∀ entry, (registry.entryKey? entry).isSome → (other.entryKey? entry).isSome) :
    other.Distinct := by
  refine ⟨fun {symbol key} => ?_, fun {entry key key'} hk hk' => ?_, fun {entry key} hk => ?_⟩
  · rw [hsymbol, hname]
    exact h.symbol
  · rw [hname] at hk hk'
    exact h.body hk hk'
  · rw [hname] at hk
    exact hentry entry (h.registered hk)

theorem internImported (h : registry.Distinct) (symbol : String) :
    (registry.internImported symbol).2.Distinct := by
  cases hk : registry.importedKey? symbol with
  | some key => rw [Compiler.internImported_of_some hk]; exact h
  | none =>
    have hname := name?_internImported_of_none hk
    have hnew : (registry.internImported symbol).1 = registry.nextKey := by
      unfold Registry.internImported
      rw [hk]
    refine ⟨fun {other key} => ?_, fun {entry key other} hkey hother => ?_, fun {entry key} hkey => ?_⟩
    · -- the new key bears the new symbol and no other
      by_cases hs : other = symbol
      · subst hs
        rw [importedKey?_internImported, hnew, hname, Option.some.injEq]
        constructor
        · rintro rfl
          rw [if_pos rfl]
        · intro hfound
          split at hfound
          · next heq => exact heq.symm
          · rw [h.symbol.mpr hfound] at hk
            cases hk
      · rw [importedKey?_internImported_of_ne registry hs, hname]
        by_cases heq : key = registry.nextKey
        · subst heq
          rw [if_pos rfl, h.symbol, name?_nextKey, Option.some.injEq, FunctionName.imported.injEq]
          exact iff_of_false (by simp) (Ne.symm hs)
        · rw [if_neg heq]
          exact h.symbol
    · -- what is new is no body
      rw [hname] at hkey hother
      split at hkey
      · cases hkey
      · split at hother
        · cases hother
        · exact h.body hkey hother
    · -- every body stays filed
      rw [hname] at hkey
      split at hkey
      · cases hkey
      · rw [entryKey?_internImported]
        exact h.registered hkey

theorem internLowered (h : registry.Distinct) (entry : Entry) :
    (registry.internLowered entry).2.Distinct := by
  cases hk : registry.entryKey? entry with
  | some key => rw [internLowered_of_some hk]; exact h
  | none =>
    have hname := name?_internLowered_of_none hk
    have hnever : ∀ {key}, registry.name? key ≠ some (.lowered entry) := fun hfound => by
      have hsome := h.registered hfound
      rw [hk] at hsome
      cases hsome
    refine ⟨fun {symbol key} => ?_, fun {found key other} hkey hother => ?_,
      fun {found key} hkey => ?_⟩
    · -- the new key bears no symbol
      rw [importedKey?_internLowered, hname]
      by_cases heq : key = registry.nextKey
      · subst heq
        rw [if_pos rfl, h.symbol, name?_nextKey]
        exact iff_of_false (by simp) (by simp)
      · rw [if_neg heq]
        exact h.symbol
    · -- the body was never there before, so it has the new key only
      rw [hname] at hkey hother
      split at hkey
      · next heq =>
        cases hkey
        split at hother
        · next heq' => rw [heq, heq']
        · exact absurd hother hnever
      · split at hother
        · cases hother
          exact absurd hkey hnever
        · exact h.body hkey hother
    · -- the new body is filed, and the others stay
      by_cases he : found = entry
      · subst he
        rw [entryKey?_internLowered]
        rfl
      · rw [entryKey?_internLowered_of_ne registry he]
        rw [hname] at hkey
        split at hkey
        · cases hkey
          exact absurd rfl he
        · exact h.registered hkey

theorem bindImported (h : registry.Distinct) (entry : Entry) (symbol : String) :
    (registry.bindImported entry symbol).2.Distinct := by
  refine (h.internImported symbol).of_names (fun _ => rfl) (fun _ => rfl) fun other hsome => ?_
  by_cases he : other = entry
  · subst he
    rw [entryKey?_bindImported]
    rfl
  · rw [entryKey?_bindImported_of_ne registry symbol he]
    rwa [entryKey?_internImported] at hsome

/-- **Every step** keeps the functions apart. -/
theorem act (h : registry.Distinct) (action : Action) : (registry.act action).2.Distinct := by
  cases action with
  | internLowered entry => exact h.internLowered entry
  | bindImported entry symbol => exact h.bindImported entry symbol
  | internImported symbol => exact h.internImported symbol
  | setId key id =>
    exact h.of_names (name?_setId registry key id) (fun _ => rfl) fun _ hsome => hsome
  | entryKey | importedKey | key | lowered => exact h

/-- The key of a symbol that was interned leads to the symbol. -/
theorem name?_internImported (h : registry.Distinct) (symbol : String) :
    (registry.internImported symbol).2.name? (registry.internImported symbol).1 =
      some (.imported symbol) :=
  (h.internImported symbol).symbol.mp (importedKey?_internImported registry symbol)

end Distinct

theorem distinct_after (history : List Action) : (after history).Distinct := by
  induction history using List.reverseRecOn with
  | nil => exact distinct_empty
  | append_singleton history action ih =>
    rw [after_snoc]
    exact ih.act action

/-! ### The functions of entry points -/

/-- The entry point that a step registers: it asks for its lowered body, or binds it to a symbol. -/
def Action.registers? : Action → Option Entry
  | internLowered entry | bindImported entry _ => some entry
  | internImported _ | entryKey _ | importedKey _ | setId .. | key _ | lowered => none

/-- A step that does not register an entry point leaves its function alone. -/
theorem entryKey?_act_of_ne (registry : Registry) {action : Action} {entry : Entry}
    (h : action.registers? ≠ some entry) :
    (registry.act action).2.entryKey? entry = registry.entryKey? entry := by
  cases action with
  | internLowered other =>
    exact entryKey?_internLowered_of_ne registry fun heq => h (congrArg some heq.symm)
  | bindImported other symbol =>
    exact entryKey?_bindImported_of_ne registry symbol fun heq => h (congrArg some heq.symm)
  | internImported symbol => exact entryKey?_internImported registry symbol entry
  | entryKey | importedKey | setId | key | lowered => rfl

/-- The function of an entry point is there. -/
theorem isSome_name?_of_entryKey? {history : List Action} {entry : Entry} {key : Nat}
    (hk : (after history).entryKey? entry = some key) : ((after history).name? key).isSome := by
  induction history using List.reverseRecOn with
  | nil => cases hk
  | append_singleton history action ih =>
    rw [after_snoc] at hk ⊢
    have hkept (hk : (after history).entryKey? entry = some key) :
        (((after history).act action).2.name? key).isSome := by
      obtain ⟨name, hname⟩ := Option.isSome_iff_exists.mp (ih hk)
      rw [(extends_act _ action).name hname]
      rfl
    -- only an action that registers the entry point can change what it is filed under
    by_cases hr : action.registers? = some entry
    · cases action with
      | internLowered other =>
        cases hr
        cases hknown : (after history).entryKey? entry with
        | some known =>
          rw [act, internLowered_of_some hknown, hknown] at hk
          exact hkept (hknown.trans hk)
        | none =>
          rw [act, entryKey?_internLowered] at hk
          cases hk
          rw [act, name?_internLowered_new hknown]
          rfl
      | bindImported other symbol =>
        cases hr
        rw [act, entryKey?_bindImported] at hk
        cases hk
        have hname := (distinct_after history).name?_internImported symbol
        rw [act, show ((after history).bindImported entry symbol).2.name? _ = _ from hname]
        rfl
      | internImported | entryKey | importedKey | setId | key | lowered => cases hr
    · rw [entryKey?_act_of_ne _ hr] at hk
      exact hkept hk

/-- The function that a step returns is there. -/
theorem exists_name?_of_returned? {history : List Action} {action : Action} {key : Nat}
    (h : (after history).returned? action = some key) :
    ∃ name, ((after history).act action).2.name? key = some name := by
  have hentry : ∀ {entry}, ((after history).act action).2.entryKey? entry = some key →
      ∃ name, ((after history).act action).2.name? key = some name := fun hk => by
    rw [← after_snoc] at hk ⊢
    exact Option.isSome_iff_exists.mp (isSome_name?_of_entryKey? hk)
  cases action with
  | internLowered entry =>
    cases h
    exact hentry (entryKey?_internLowered _ entry)
  | bindImported entry symbol =>
    cases h
    exact hentry (entryKey?_bindImported _ entry symbol)
  | internImported symbol =>
    cases h
    exact ⟨_, (distinct_after history).name?_internImported symbol⟩
  | entryKey entry => exact hentry h
  | importedKey symbol => exact ⟨_, (distinct_after history).symbol.mp h⟩
  | setId | key | lowered => cases h

/-- **An entry point keeps its function** until it is bound to a symbol: a body is made for an entry
point that has no function yet. -/
theorem entryKey?_act_of_some {registry : Registry} {action : Action} {entry : Entry} {key : Nat}
    (hk : registry.entryKey? entry = some key)
    (h : ∀ symbol, action ≠ .bindImported entry symbol) :
    (registry.act action).2.entryKey? entry = some key := by
  by_cases hr : action.registers? = some entry
  · cases action with
    | internLowered other =>
      cases hr
      rw [act, internLowered_of_some hk, hk]
    | bindImported other symbol =>
      cases hr
      exact absurd rfl (h symbol)
    | internImported | entryKey | importedKey | setId | key | lowered => cases hr
  · rw [entryKey?_act_of_ne registry hr, hk]

theorem entryKey?_after_of_some {history later : List Action} {entry : Entry} {key : Nat}
    (hk : (after history).entryKey? entry = some key)
    (h : ∀ symbol, .bindImported entry symbol ∉ later) :
    (after (history ++ later)).entryKey? entry = some key := by
  induction later using List.reverseRecOn with
  | nil => rwa [List.append_nil]
  | append_singleton later action ih =>
    rw [← List.append_assoc, after_snoc]
    refine entryKey?_act_of_some (ih fun symbol hm => h symbol (List.mem_append_left _ hm)) ?_
    rintro symbol rfl
    exact h symbol (List.mem_append_right _ (List.mem_singleton_self _))

/-- An entry point has a function as soon as it is registered. -/
theorem isSome_entryKey?_act {registry : Registry} {action : Action} {entry : Entry}
    (h : action.registers? = some entry) : ((registry.act action).2.entryKey? entry).isSome := by
  cases action with
  | internLowered other =>
    cases h
    rw [act, entryKey?_internLowered]
    rfl
  | bindImported other symbol =>
    cases h
    rw [act, entryKey?_bindImported]
    rfl
  | internImported | entryKey | importedKey | setId | key | lowered => cases h

/-- **An entry point has no function** exactly if no step has registered it. -/
theorem entryKey?_after_eq_none_iff {history : List Action} {entry : Entry} :
    (after history).entryKey? entry = none ↔
      ∀ action ∈ history, action.registers? ≠ some entry := by
  induction history using List.reverseRecOn with
  | nil => exact iff_of_true rfl fun action hm => by cases hm
  | append_singleton history action ih =>
    rw [after_snoc, List.forall_mem_append, List.forall_mem_singleton, ← ih]
    by_cases hr : action.registers? = some entry
    · have hsome : (((after history).act action).2.entryKey? entry).isSome :=
        isSome_entryKey?_act hr
      refine iff_of_false (fun hnone => ?_) fun h => h.2 hr
      rw [hnone] at hsome
      cases hsome
    · rw [entryKey?_act_of_ne _ hr]
      exact ⟨fun h => ⟨h, hr⟩, And.left⟩

/-! ### Identities -/

/-- A new function has no identity. -/
theorem id?_add (registry : Registry) (name : FunctionName) (key : Nat) :
    (registry.add name).id? key = registry.id? key := by
  unfold add id?
  rcases Nat.lt_trichotomy key registry.functions.length with h | h | h
  · rw [List.getElem?_append_left h]
  · subst h
    simp
  · rw [List.getElem?_eq_none (by simp; omega), List.getElem?_eq_none (by omega)]

/-- No step but one gives a function an identity. -/
theorem id?_act_of_ne (registry : Registry) {action : Action} {key : Nat}
    (h : ∀ id, action ≠ .setId key id) : (registry.act action).2.id? key = registry.id? key := by
  have hsymbol : ∀ symbol, (registry.internImported symbol).2.id? key = registry.id? key := by
    intro symbol
    unfold internImported
    split
    · rfl
    · exact id?_add registry _ key
  have hbody : ∀ entry, (registry.internLowered entry).2.id? key = registry.id? key := by
    intro entry
    unfold internLowered
    split
    · rfl
    · exact id?_add registry _ key
  cases action with
  | internLowered entry => exact hbody entry
  | bindImported entry symbol => exact hsymbol symbol
  | internImported symbol => exact hsymbol symbol
  | setId other id => exact id?_setId_of_ne registry (fun heq => h id (by rw [heq])) id
  | entryKey | importedKey | key | lowered => rfl

/-- An identity is noted for a function that is there. -/
theorem id?_setId (registry : Registry) (key id : Nat) : (registry.setId key id).id? key =
    if (registry.name? key).isSome then some id else none := by
  split
  · next h =>
    obtain ⟨name, hn⟩ := Option.isSome_iff_exists.mp h
    exact id?_setId_self (lt_nextKey_of_name? hn) id
  · next h =>
    have hnone : registry.functions[key]? = none := by
      cases hf : registry.functions[key]? with
      | none => rfl
      | some f => rw [name?, hf] at h; exact absurd rfl h
    rw [id?, setId, List.getElem?_modify, hnone]
    rfl

/-- A step of a history with one step more is one of the history, or the last. -/
theorem snoc_eq_append_cons_iff {history before later : List Action} {action step : Action} :
    history ++ [action] = before ++ step :: later ↔
      (later = [] ∧ before = history ∧ step = action) ∨
        ∃ rest, later = rest ++ [action] ∧ history = before ++ step :: rest := by
  constructor
  · intro heq
    rcases List.eq_nil_or_concat' later with rfl | ⟨rest, last, rfl⟩
    · obtain ⟨hhistory, haction⟩ := List.append_inj' heq rfl
      exact .inl ⟨rfl, hhistory.symm, (List.cons.inj haction).1.symm⟩
    · rw [← List.cons_append, ← List.append_assoc] at heq
      obtain ⟨hhistory, haction⟩ := List.append_inj' heq rfl
      exact .inr ⟨rest, by rw [haction], hhistory⟩
  · rintro (⟨rfl, rfl, rfl⟩ | ⟨rest, rfl, rfl⟩)
    · rfl
    · rw [List.append_assoc, List.cons_append]

/-- **The identity of a function** is the last that was noted since the function was there. -/
theorem id?_after_eq_some_iff {history : List Action} {key id : Nat} :
    (after history).id? key = some id ↔ ∃ before later, history = before ++ .setId key id :: later ∧
      ((after before).name? key).isSome ∧ ∀ other, .setId key other ∉ later := by
  induction history using List.reverseRecOn with
  | nil =>
    refine iff_of_false (by simp [empty, id?]) ?_
    rintro ⟨before, later, heq, -⟩
    simp at heq
  | append_singleton history action ih =>
    rw [after_snoc]
    simp only [snoc_eq_append_cons_iff]
    -- the last action notes an identity of the function, or it leaves that alone
    by_cases hset : ∃ found, action = .setId key found
    · obtain ⟨found, rfl⟩ := hset
      rw [act, id?_setId]
      constructor
      · intro h
        split at h
        · next hname =>
          cases h
          exact ⟨history, [], .inl ⟨rfl, rfl, rfl⟩, hname, fun other hm => by cases hm⟩
        · cases h
      · rintro ⟨before, later, ⟨rfl, rfl, heq⟩ | ⟨rest, rfl, rfl⟩, hname, hlater⟩
        · cases heq
          rw [if_pos hname]
        · exact absurd (List.mem_append_right _ (List.mem_singleton_self _)) (hlater found)
    · rw [not_exists] at hset
      rw [id?_act_of_ne _ hset, ih]
      constructor
      · rintro ⟨before, later, rfl, hname, hlater⟩
        refine ⟨before, later ++ [action], .inr ⟨later, rfl, rfl⟩, hname, fun other hm => ?_⟩
        rcases List.mem_append.mp hm with hm | hm
        · exact hlater other hm
        · exact hset other (List.mem_singleton.mp hm).symm
      · rintro ⟨before, later, ⟨rfl, rfl, heq⟩ | ⟨rest, rfl, rfl⟩, hname, hlater⟩
        · exact absurd heq.symm (hset id)
        · exact ⟨before, rest, rfl, hname, fun other hm => hlater other (List.mem_append_left _ hm)⟩

/-! ### Lowered bodies -/

/-- The entry point whose lowered body a function is. -/
def body? : FunctionName → Option Entry
  | .lowered entry => some entry
  | .imported _ => none

theorem body?_eq_some_iff {name : FunctionName} {entry : Entry} :
    body? name = some entry ↔ name = .lowered entry := by
  cases name <;> simp [body?]

/-- The entry points that have lowered bodies, in the order in which the bodies were made. -/
def bodies (registry : Registry) : List Entry := registry.lowered.map Prod.fst

theorem bodies_eq (registry : Registry) :
    registry.bodies = registry.functions.filterMap fun f => body? f.name := by
  rw [bodies, Registry.lowered, List.map_filterMap]
  refine List.filterMap_congr fun f _ => ?_
  cases f.name <;> rfl

theorem bodies_add (registry : Registry) (name : FunctionName) :
    (registry.add name).bodies = registry.bodies ++ (body? name).toList := by
  rw [bodies_eq, bodies_eq, add, List.filterMap_append]
  cases name <;> rfl

theorem bodies_setId (registry : Registry) (key id : Nat) :
    (registry.setId key id).bodies = registry.bodies := by
  have hmap : ∀ registry : Registry, registry.bodies =
      (registry.functions.map FunctionRecord.name).filterMap body? := fun registry => by
    rw [bodies_eq, List.filterMap_map]
    rfl
  have hnames : (registry.setId key id).functions.map FunctionRecord.name =
      registry.functions.map FunctionRecord.name := by
    refine List.ext_getElem? fun i => ?_
    rw [List.getElem?_map, List.getElem?_map]
    exact name?_setId registry key id i
  rw [hmap, hmap, hnames]

/-- **A body is made** for an entry point that has no function yet. -/
theorem bodies_internLowered {registry : Registry} {entry : Entry}
    (h : registry.entryKey? entry = none) :
    (registry.internLowered entry).2.bodies = registry.bodies ++ [entry] := by
  have hadd := bodies_add registry (.lowered entry)
  unfold internLowered
  rw [h]
  exact hadd

/-- No other step makes a body. -/
theorem bodies_act {registry : Registry} {action : Action}
    (h : ∀ entry, action = .internLowered entry → (registry.entryKey? entry).isSome) :
    (registry.act action).2.bodies = registry.bodies := by
  have hsymbol : ∀ symbol, (registry.internImported symbol).2.bodies = registry.bodies := by
    intro symbol
    unfold internImported
    split
    · rfl
    · exact (bodies_add registry (.imported symbol)).trans (List.append_nil _)
  cases action with
  | internLowered entry =>
    obtain ⟨key, hk⟩ := Option.isSome_iff_exists.mp (h entry rfl)
    rw [act, internLowered_of_some hk]
  | bindImported entry symbol => exact hsymbol symbol
  | internImported symbol => exact hsymbol symbol
  | setId key id => exact bodies_setId registry key id
  | entryKey | importedKey | key | lowered => rfl

/-- A body that was made stays where it is in the order. -/
theorem bodies_after_append (history later : List Action) :
    (after history).bodies <+: (after (history ++ later)).bodies := by
  induction later using List.reverseRecOn with
  | nil => exact ⟨[], by rw [List.append_nil, List.append_nil]⟩
  | append_singleton later action ih =>
    rw [← List.append_assoc, after_snoc]
    refine ih.trans ?_
    by_cases hnew : ∃ entry, action = .internLowered entry ∧
        (after (history ++ later)).entryKey? entry = none
    · obtain ⟨entry, rfl, hnone⟩ := hnew
      rw [act, bodies_internLowered hnone]
      exact List.prefix_append ..
    · have hsame := bodies_act fun entry heq =>
        Option.isSome_iff_ne_none.mpr fun hnone => hnew ⟨entry, heq, hnone⟩
      exact ⟨[], (List.append_nil _).trans hsame.symm⟩

/-- **An entry point has a lowered body** exactly if a step asked for it when the entry point had no
function yet. -/
theorem mem_bodies_after_iff {history : List Action} {entry : Entry} :
    entry ∈ (after history).bodies ↔ ∃ before later,
      history = before ++ .internLowered entry :: later ∧
        (after before).entryKey? entry = none := by
  constructor
  · induction history using List.reverseRecOn with
    | nil => intro hm; cases hm
    | append_singleton history action ih =>
      intro hm
      rw [after_snoc] at hm
      have hold (hm : entry ∈ (after history).bodies) : ∃ before later,
          history ++ [action] = before ++ .internLowered entry :: later ∧
            (after before).entryKey? entry = none := by
        obtain ⟨before, later, rfl, hnone⟩ := ih hm
        exact ⟨before, later ++ [action], by rw [List.append_assoc, List.cons_append], hnone⟩
      -- the last action adds a body, or the bodies are those of before
      by_cases hnew : ∃ found, action = .internLowered found ∧
          (after history).entryKey? found = none
      · obtain ⟨found, rfl, hnone⟩ := hnew
        rw [act, bodies_internLowered hnone] at hm
        rcases List.mem_append.mp hm with hm | hm
        · exact hold hm
        · rw [List.mem_singleton] at hm
          subst hm
          exact ⟨history, [], rfl, hnone⟩
      · rw [bodies_act fun found heq =>
          Option.isSome_iff_ne_none.mpr fun hnone => hnew ⟨found, heq, hnone⟩] at hm
        exact hold hm
  · rintro ⟨before, later, rfl, hnone⟩
    have hmade : entry ∈ (after (before ++ [.internLowered entry])).bodies := by
      rw [after_snoc, act, bodies_internLowered hnone]
      exact List.mem_append_right _ (List.mem_singleton_self _)
    have hprefix := bodies_after_append (before ++ [.internLowered entry]) later
    rw [List.append_assoc, List.singleton_append] at hprefix
    exact hprefix.subset hmade

/-- No entry point has two lowered bodies. -/
theorem Distinct.nodup_bodies {registry : Registry} (h : registry.Distinct) :
    registry.bodies.Nodup := by
  rw [bodies_eq, List.Nodup, List.pairwise_filterMap, List.pairwise_iff_getElem]
  intro i j hi hj hlt entry hentry other hother heq
  subst heq
  have hkey : ∀ {key} (hlt : key < registry.functions.length),
      body? registry.functions[key].name = some entry →
      registry.name? key = some (.lowered entry) := fun hlt hbody => by
    rw [name?, List.getElem?_eq_getElem hlt, Option.map_some, body?_eq_some_iff.mp hbody]
  exact Nat.ne_of_lt hlt (h.body (hkey hi hentry) (hkey hj hother))

/-- A body is listed with the identity of its function. -/
theorem Distinct.mem_lowered_iff {registry : Registry} (h : registry.Distinct) {entry : Entry}
    {key : Nat} (hk : registry.name? key = some (.lowered entry)) {id : Option Nat} :
    (entry, id) ∈ registry.lowered ↔ registry.id? key = id := by
  obtain ⟨f, hf, hname⟩ := Option.map_eq_some_iff.mp hk
  constructor
  · intro hm
    obtain ⟨f', hf', heq⟩ := List.mem_filterMap.mp hm
    obtain ⟨key', hkey'⟩ := List.mem_iff_getElem?.mp hf'
    split at heq
    · next found hn =>
      cases heq
      have hk' : registry.name? key' = some (.lowered entry) := by
        rw [name?, hkey', Option.map_some, hn]
      rw [h.body hk hk', id?, hkey', Option.bind_some]
    · cases heq
  · rintro rfl
    refine List.mem_filterMap.mpr ⟨f, List.mem_of_getElem? hf, ?_⟩
    rw [hname, id?, hf, Option.bind_some]

/-! ### What a step leaves in the end -/

/-- What a function is behind a step, it is in the end. -/
theorem name?_after_of_act {before later : List Action} {action : Action} {key : Nat}
    {name : FunctionName} (h : ((after before).act action).2.name? key = some name) :
    (after (before ++ action :: later)).name? key = some name := by
  rw [← after_snoc] at h
  have hlater := (extends_after (before ++ [action]) later).name h
  rwa [List.append_assoc, List.singleton_append] at hlater

/-- The function that an entry point has behind a step is its last if it is not bound later. -/
theorem entryKey?_after_of_act {before later : List Action} {action : Action} {entry : Entry}
    {key : Nat} (h : ((after before).act action).2.entryKey? entry = some key)
    (unbound : ∀ symbol, .bindImported entry symbol ∉ later) :
    (after (before ++ action :: later)).entryKey? entry = some key := by
  rw [← after_snoc] at h
  have hlast := entryKey?_after_of_some h unbound
  rwa [List.append_assoc, List.singleton_append] at hlast

theorem name?_after_internImported (before later : List Action) (symbol : String) :
    (after (before ++ .internImported symbol :: later)).name?
      ((after before).internImported symbol).1 = some (.imported symbol) :=
  @name?_after_of_act _ _ (.internImported symbol) _ _
    ((distinct_after before).name?_internImported symbol)

theorem name?_after_internLowered {before : List Action} (later : List Action) {entry : Entry}
    (hnone : (after before).entryKey? entry = none) :
    (after (before ++ .internLowered entry :: later)).name?
      ((after before).internLowered entry).1 = some (.lowered entry) :=
  @name?_after_of_act _ _ (.internLowered entry) _ _ (name?_internLowered_new hnone)

/-! ### What is told of the history -/

/-- **A registry answers what its history says.**  A function that a step returned is still what it
was.  A symbol has one function, which is no lowered body.  An entry point has a function exactly if
it was registered: the one of the symbol that it was last bound to, or if it never was bound, the
body that was made when it was first asked for.  The identity of a function is the last that was
noted for it.  The lowered bodies are those of the entry points whose first registration asked for
one, each once, and new ones come last. -/
structure Reflects (registry : Registry) (history : List Action) : Prop where
  returned : ∀ {before later action key}, history = before ++ action :: later →
    (after before).returned? action = some key →
    ∃ name, ((after before).act action).2.name? key = some name ∧
      registry.display? key = some name.display ∧ registry.isImported? key = some name.isImported
  symbol : ∀ {before later symbol}, history = before ++ .internImported symbol :: later →
    registry.importedKey? symbol = some ((after before).internImported symbol).1 ∧
      registry.name? ((after before).internImported symbol).1 = some (.imported symbol)
  sameSymbol : ∀ {before between later symbol other},
    history = before ++ .internImported symbol :: between ++ .internImported other :: later →
    (((after before).internImported symbol).1 =
      ((after (before ++ .internImported symbol :: between)).internImported other).1 ↔
        symbol = other)
  unregistered : ∀ {entry}, registry.entryKey? entry = none ↔
    ∀ action ∈ history, action.registers? ≠ some entry
  bound : ∀ {before later entry symbol}, history = before ++ .bindImported entry symbol :: later →
    (∀ other, .bindImported entry other ∉ later) →
    registry.entryKey? entry = some ((after before).bindImported entry symbol).1 ∧
      registry.name? ((after before).bindImported entry symbol).1 = some (.imported symbol)
  made : ∀ {before later entry}, history = before ++ .internLowered entry :: later →
    (∀ action ∈ before, action.registers? ≠ some entry) →
    registry.name? ((after before).internLowered entry).1 = some (.lowered entry) ∧
      ((∀ symbol, .bindImported entry symbol ∉ later) →
        registry.entryKey? entry = some ((after before).internLowered entry).1)
  id : ∀ {key id}, registry.id? key = some id ↔ ∃ before later,
    history = before ++ .setId key id :: later ∧ ((after before).name? key).isSome ∧
      ∀ other, .setId key other ∉ later
  lowered : ∀ {entry id}, (entry, id) ∈ registry.lowered ↔ ∃ before later,
    history = before ++ .internLowered entry :: later ∧
      (∀ action ∈ before, action.registers? ≠ some entry) ∧
      registry.id? ((after before).internLowered entry).1 = id
  loweredOnce : (registry.lowered.map Prod.fst).Nodup
  inOrder : ∀ {before later}, history = before ++ later →
    (after before).lowered.map Prod.fst <+: registry.lowered.map Prod.fst

/-- **A registry reflects its history**, whatever was done on it. -/
theorem reflects_history (history : List Action) : (after history).Reflects history := by
  have hdistinct := distinct_after history
  constructor
  case returned =>
    rintro before later action key rfl hreturned
    obtain ⟨name, hname⟩ := exists_name?_of_returned? hreturned
    refine ⟨name, hname, ?_⟩
    rw [display?, isImported?, name?_after_of_act hname]
    exact ⟨rfl, rfl⟩
  case symbol =>
    rintro before later symbol rfl
    have hname := name?_after_internImported before later symbol
    exact ⟨hdistinct.symbol.mpr hname, hname⟩
  case sameSymbol =>
    rintro before between later symbol other heq
    -- both functions as they are in the end
    have hfirst := name?_after_internImported before (between ++ .internImported other :: later)
      symbol
    have hsecond := name?_after_internImported (before ++ .internImported symbol :: between) later
      other
    rw [← List.cons_append, ← List.append_assoc, ← heq] at hfirst
    rw [← heq] at hsecond
    constructor
    · intro hsame
      rw [hsame, hsecond] at hfirst
      cases hfirst
      rfl
    · rintro rfl
      exact Option.some.inj ((hdistinct.symbol.mpr hfirst).symm.trans (hdistinct.symbol.mpr hsecond))
  case unregistered => exact entryKey?_after_eq_none_iff
  case bound =>
    rintro before later entry symbol rfl hlater
    exact ⟨@entryKey?_after_of_act _ _ (.bindImported entry symbol) _ _
        (entryKey?_bindImported _ entry symbol) hlater,
      @name?_after_of_act _ _ (.bindImported entry symbol) _ _
        ((distinct_after before).name?_internImported symbol)⟩
  case made =>
    rintro before later entry rfl hbefore
    exact ⟨name?_after_internLowered later (entryKey?_after_eq_none_iff.mpr hbefore),
      @entryKey?_after_of_act _ _ (.internLowered entry) _ _ (entryKey?_internLowered _ entry)⟩
  case id => exact id?_after_eq_some_iff
  case lowered =>
    intro entry id
    constructor
    · intro hm
      have hbody : entry ∈ (after history).bodies := List.mem_map.mpr ⟨_, hm, rfl⟩
      obtain ⟨before, later, rfl, hnone⟩ := mem_bodies_after_iff.mp hbody
      exact ⟨before, later, rfl, entryKey?_after_eq_none_iff.mp hnone,
        (hdistinct.mem_lowered_iff (name?_after_internLowered later hnone)).mp hm⟩
    · rintro ⟨before, later, rfl, hbefore, hid⟩
      have hnone := entryKey?_after_eq_none_iff.mpr hbefore
      exact (hdistinct.mem_lowered_iff (name?_after_internLowered later hnone)).mpr hid
  case loweredOnce => exact hdistinct.nodup_bodies
  case inOrder =>
    rintro before later rfl
    exact bodies_after_append before later

/-- A body stays listed when its entry point is bound to a symbol, and keeps its identity. -/
example :
    let registry := after [.internLowered ⟨.iternext, .range⟩, .setId 0 7,
      .bindImported ⟨.iternext, .range⟩ "step", .internLowered ⟨.iternext, .range⟩]
    registry.lowered = [(⟨.iternext, .range⟩, some 7)] ∧
      registry.entryKey? ⟨.iternext, .range⟩ = some 1 ∧ registry.isImported? 1 = some true := by
  decide

end PullIter.Registry
