import PullIter.Proofs.Unit.Registration

/-!
# What a unit adds

Every part of a request adds to what a unit has registered, and takes nothing away: a symbol
that is imported is interned with its identity, and so is an entry point that is made available.

## Main definitions

* `Registry.Sound` — a consistent registry in which what is looked up has an identity.
* `Compiler.Grows` — what every part of a request leaves as it is, or adds to.
* `Compiler.ensureAll` — make entry points available, without what they call.
* `Compiler.Adds`, `Compiler.AddsAll` — what entry points that are made available add.

## Main results

* `importUses_registry` — a registry stays sound and linked while symbols are imported.
* `adds_ensure`, `addsAll_ensureAll` — what making entry points available adds.
-/

namespace PullIter

/-! ### Sound registries -/

namespace Registry

/-- A consistent registry in which every function that is looked up has its identity. -/
structure Sound (registry : Registry) : Prop where
  consistent : registry.Consistent
  entryId : ∀ {entry key}, registry.entryKey? entry = some key → (registry.id? key).isSome
  symbolId : ∀ {symbol key}, registry.importedKey? symbol = some key → (registry.id? key).isSome

theorem sound_empty : Sound empty :=
  ⟨consistent_empty, fun h => by simp [empty, entryKey?] at h,
    fun h => by simp [empty, importedKey?] at h⟩

/-- An identity that is noted for a named function is there. -/
theorem isSome_id?_setId {registry : Registry} {key : Nat} {name : FunctionName}
    (h : registry.name? key = some name) (id : Nat) : ((registry.setId key id).id? key).isSome := by
  rw [id?_setId_self (lt_nextKey_of_name? h)]
  rfl

/-- A symbol that is imported with its identity. -/
theorem Sound.importSymbol {registry : Registry} (h : registry.Sound) (symbol : String) (id : Nat) :
    ((registry.internImported symbol).2.setId (registry.internImported symbol).1 id).Sound := by
  have hname := h.consistent.name?_internImported symbol
  have hext := (extends_internImported registry symbol).trans
    (extends_setId (registry.internImported symbol).2 (registry.internImported symbol).1 id)
  refine ⟨(h.consistent.internImported symbol).setId _ _, ?_, ?_⟩
  · intro entry key hk
    rw [entryKey?_setId, entryKey?_internImported] at hk
    exact hext.id (h.entryId hk)
  · intro other key hk
    rw [importedKey?_setId] at hk
    by_cases hs : other = symbol
    · subst hs
      rw [importedKey?_internImported] at hk
      cases hk
      exact isSome_id?_setId hname id
    · rw [importedKey?_internImported_of_ne registry hs] at hk
      exact hext.id (h.symbolId hk)

/-- A lowered body that is declared with its identity. -/
theorem Sound.declare {registry : Registry} (h : registry.Sound) {entry : Entry}
    (hl : entry.provision = .lowered) (id : Nat) :
    ((registry.internLowered entry).2.setId (registry.internLowered entry).1 id).Sound := by
  have hcons := h.consistent.internLowered hl
  have hext := (extends_internLowered registry entry).trans
    (extends_setId (registry.internLowered entry).2 (registry.internLowered entry).1 id)
  refine ⟨hcons.setId _ _, ?_, ?_⟩
  · intro other key hk
    rw [entryKey?_setId] at hk
    by_cases he : other = entry
    · subst he
      rw [entryKey?_internLowered] at hk
      cases hk
      rcases hcons.entry (entryKey?_internLowered registry other) with ⟨-, hn⟩ | ⟨_, hi, -⟩
      · exact isSome_id?_setId hn id
      · rw [hl] at hi; cases hi
    · rw [entryKey?_internLowered_of_ne registry he] at hk
      exact hext.id (h.entryId hk)
  · intro symbol key hk
    rw [importedKey?_setId, importedKey?_internLowered] at hk
    exact hext.id (h.symbolId hk)

/-- An entry point that is bound to an imported symbol. -/
theorem Sound.bind {registry : Registry} (h : registry.Sound) {entry : Entry} {symbol : String}
    {known : Nat} (hp : entry.provision = .imported symbol)
    (hk : registry.importedKey? symbol = some known) :
    (registry.bindImported entry symbol).2.Sound := by
  have hsame : registry.internImported symbol = (known, registry) := by simp [internImported, hk]
  have hbound : (registry.bindImported entry symbol).2 =
      { registry with entries := (entry, known) :: registry.entries } := by simp [bindImported, hsame]
  refine ⟨h.consistent.bindImported hp, ?_, ?_⟩
  · intro other key hkey
    by_cases he : other = entry
    · subst he
      rw [entryKey?_bindImported, hsame] at hkey
      cases hkey
      rw [hbound]
      exact h.symbolId hk
    · rw [entryKey?_bindImported_of_ne registry symbol he] at hkey
      rw [hbound]
      exact h.entryId hkey
  · intro other key hkey
    rw [importedKey?_bindImported, hsame] at hkey
    rw [hbound]
    exact h.symbolId hkey

end Registry

/-! ### Growing units -/

namespace Compiler

/-- What every part of a request leaves as it is, or adds to. -/
structure Grows (before after : Compiler) : Prop where
  linkable : after.decls.linkable = before.decls.linkable
  failure : after.failure = before.failure
  entry : ∀ {entry}, (before.registry.entryKey? entry).isSome →
    (after.registry.entryKey? entry).isSome
  symbol : ∀ {symbol}, (before.registry.importedKey? symbol).isSome →
    (after.registry.importedKey? symbol).isSome

theorem Grows.refl (unit : Compiler) : unit.Grows unit := ⟨rfl, rfl, fun h => h, fun h => h⟩

theorem Grows.trans {a b c : Compiler} (h : a.Grows b) (h' : b.Grows c) : a.Grows c :=
  ⟨h'.linkable.trans h.linkable, h'.failure.trans h.failure, fun he => h'.entry (h.entry he),
    fun hs => h'.symbol (h.symbol hs)⟩

/-- What can be linked decides which symbols there are. -/
theorem Grows.hasSymbol {before after : Compiler} (h : before.Grows after) (symbol : String) :
    after.decls.hasSymbol symbol = before.decls.hasSymbol symbol := by
  simp only [Declarations.hasSymbol, Declarations.provider?, h.linkable]

/-! ### Importing symbols -/

theorem linkable_of_declareName {decls after : Declarations} {name : String}
    {signature : Signature} {id : Nat} (h : decls.declareName name signature = .ok (id, after)) :
    after.linkable = decls.linkable := by
  unfold Declarations.declareName at h
  split at h
  · split at h
    · cases h; rfl
    · cases h
  · cases h; rfl

theorem linkable_of_declare {decls after : Declarations} {name : String} {signature : Signature}
    {id : Nat} (h : decls.declare name signature = .ok (id, after)) :
    after.linkable = decls.linkable := by
  unfold Declarations.declare at h
  split at h
  · next hd =>
    have hl := linkable_of_declareName hd
    cases h
    exact hl
  · cases h

theorem linkable_of_importSymbol {decls after : Declarations} {name : String}
    {signature : Signature} {id : Nat} (h : decls.importSymbol name signature = .ok (id, after)) :
    after.linkable = decls.linkable := by
  unfold Declarations.importSymbol at h
  split at h
  · cases h; rfl
  · split at h
    · split at h
      · next hd =>
        have hl := linkable_of_declareName hd
        cases h
        exact hl
      · cases h
    · cases h

/-- What importing a symbol does to a unit: the declarations change, and the symbol is interned
with its identity. -/
theorem importUse_eq_ok {unit after : Compiler} {symbol : String} {shape : Shape}
    (h : unit.importUse symbol shape = .ok after) :
    ∃ decls id, unit.decls.importSymbol symbol (shape.signature targetPointerBytes) =
        .ok (id, decls) ∧
      after = { unit with
        decls := decls
        registry := (unit.registry.internImported symbol).2.setId
          (unit.registry.internImported symbol).1 id } := by
  unfold importUse at h
  split at h
  · cases h
  · next id decls hd =>
    cases h
    exact ⟨decls, id, hd, rfl⟩

theorem grows_importUse {unit after : Compiler} {symbol : String} {shape : Shape}
    (h : unit.importUse symbol shape = .ok after) : unit.Grows after := by
  obtain ⟨decls, id, hd, rfl⟩ := importUse_eq_ok h
  refine ⟨linkable_of_importSymbol hd, rfl, ?_, ?_⟩
  · intro entry he
    simpa using he
  · intro other hs
    obtain ⟨key, hk⟩ := Option.isSome_iff_exists.mp hs
    rw [Registry.importedKey?_setId, Registry.importedKey?_internImported_of_some hk]
    rfl

theorem grows_importUses {uses : List (String × Shape)} :
    ∀ {unit after : Compiler}, unit.importUses uses = .ok after → unit.Grows after := by
  induction uses with
  | nil => intro unit after h; cases h; exact Grows.refl unit
  | cons use rest ih =>
    intro unit after h
    rw [importUses] at h
    split at h
    · cases h
    · next hu => exact (grows_importUse hu).trans (ih h)

/-- The symbols that were imported have a key. -/
theorem isSome_importedKey?_of_importUses {uses : List (String × Shape)} :
    ∀ {unit after : Compiler}, unit.importUses uses = .ok after → ∀ {symbol},
      symbol ∈ uses.map Prod.fst → (after.registry.importedKey? symbol).isSome := by
  induction uses with
  | nil => intro unit after _ symbol hs; simp at hs
  | cons use rest ih =>
    intro unit after h symbol hs
    rw [importUses] at h
    split at h
    · cases h
    · next hu =>
      rcases List.mem_cons.mp hs with rfl | hs
      · obtain ⟨decls, id, -, rfl⟩ := importUse_eq_ok hu
        refine (grows_importUses h).symbol ?_
        rw [Registry.importedKey?_setId, Registry.importedKey?_internImported]
        rfl
      · exact ih h hs

/-- A registry stays sound and linked while symbols that can be linked are imported, and no entry
point is added. -/
theorem importUses_registry {uses : List (String × Shape)} :
    ∀ {unit after : Compiler}, unit.importUses uses = .ok after → unit.registry.Sound →
      (∀ {symbol key}, unit.registry.importedKey? symbol = some key →
        unit.decls.hasSymbol symbol = true) →
      (∀ symbol ∈ uses.map Prod.fst, unit.decls.hasSymbol symbol = true) →
      after.registry.Sound ∧
        (∀ {symbol key}, after.registry.importedKey? symbol = some key →
          after.decls.hasSymbol symbol = true) ∧
        ∀ entry, after.registry.entryKey? entry = unit.registry.entryKey? entry := by
  induction uses with
  | nil => intro unit after h hs hl _; cases h; exact ⟨hs, hl, fun _ => rfl⟩
  | cons use rest ih =>
    intro unit after h hsound hlinked hall
    rw [importUses] at h
    split at h
    · cases h
    · next mid hu =>
      have hgrow := grows_importUse hu
      obtain ⟨decls, id, -, rfl⟩ := importUse_eq_ok hu
      have hmid := ih h (hsound.importSymbol use.1 id) ?_ ?_
      · refine ⟨hmid.1, hmid.2.1, fun entry => ?_⟩
        rw [hmid.2.2 entry]
        simp
      · intro symbol key hk
        rw [hgrow.hasSymbol]
        -- the symbol is the one that was imported just now, or it was filed before
        by_cases hsym : symbol = use.1
        · subst hsym
          exact hall _ (List.mem_cons_self ..)
        · rw [Registry.importedKey?_setId,
            Registry.importedKey?_internImported_of_ne _ hsym] at hk
          exact hlinked hk
      · intro symbol hs
        rw [hgrow.hasSymbol]
        exact hall symbol (List.mem_cons_of_mem _ hs)

/-! ### Checking a kind -/

/-- What checking a kind and importing its symbols does to a unit. -/
theorem prepare_eq_ok {unit after : Compiler} {kind : Kind} (h : unit.prepare kind = .ok after) :
    kind.check = .ok () ∧ (∀ symbol ∈ kind.symbols, unit.decls.hasSymbol symbol = true) ∧
      unit.importUses kind.symbolUses = .ok after := by
  unfold prepare at h
  split at h
  · cases h
  · next hc =>
    split at h
    · cases h
    · next hf =>
      refine ⟨hc, ?_, h⟩
      intro symbol hs
      have hno := List.find?_eq_none.mp hf symbol hs
      simpa using hno

/-- A kind that passes the check is prepared, if all its symbols can be linked and imported. -/
theorem prepare_of_importUses {unit after : Compiler} {kind : Kind} (hcheck : kind.check = .ok ())
    (hsymbols : ∀ symbol ∈ kind.symbols, unit.decls.hasSymbol symbol = true)
    (huses : unit.importUses kind.symbolUses = .ok after) : unit.prepare kind = .ok after := by
  have hfind : kind.symbols.find? (fun symbol => !unit.decls.hasSymbol symbol) = none := by
    rw [List.find?_eq_none]
    intro symbol hs
    simp [hsymbols symbol hs]
  simp only [prepare, hcheck, hfind, huses]

/-! ### Making entry points available -/

/-- Make entry points available in order, but nothing that they call. -/
def ensureAll (unit : Compiler) : List Entry → Except Error Compiler
  | [] => .ok unit
  | entry :: rest =>
    match unit.ensure entry with
    | .error e => .error e
    | .ok unit => unit.ensureAll rest

/-- The outcome of making an entry point available: nothing, a declared body, or a bound symbol. -/
theorem ensure_eq_ok {unit after : Compiler} {entry : Entry} (h : unit.ensure entry = .ok after) :
    ((unit.registry.entryKey? entry).isSome ∧ after = unit) ∨
      (entry.provision = .lowered ∧ ∃ decls id, unit.decls.declare entry.symbolName
          (entry.op.shape.signature targetPointerBytes) = .ok (id, decls) ∧
        after = { unit with
          decls := decls
          registry := (unit.registry.internLowered entry).2.setId
            (unit.registry.internLowered entry).1 id }) ∨
      ∃ symbol known, entry.provision = .imported symbol ∧
        unit.registry.importedKey? symbol = some known ∧
        after = { unit with registry := (unit.registry.bindImported entry symbol).2 } := by
  unfold ensure at h
  split at h
  · next hs => cases h; exact .inl ⟨hs, rfl⟩
  · right
    unfold provide at h
    split at h
    · next hp =>
      split at h
      · cases h
      · next id decls hd =>
        cases h
        exact .inl ⟨hp, decls, id, hd, rfl⟩
    · next symbol hp =>
      split at h
      · cases h
      · next known hk => cases h; exact .inr ⟨symbol, known, hp, hk, rfl⟩
    · cases h

/-- An imported symbol is interned under the key that it has. -/
theorem internImported_of_some {registry : Registry} {symbol : String} {key : Nat}
    (h : registry.importedKey? symbol = some key) :
    registry.internImported symbol = (key, registry) := by
  simp [Registry.internImported, h]

/-- What an entry point that is made available adds: its own key, and nothing else. -/
structure Adds (entry : Entry) (before after : Compiler) : Prop where
  grows : before.Grows after
  found : (after.registry.entryKey? entry).isSome
  other : ∀ {other}, other ≠ entry →
    after.registry.entryKey? other = before.registry.entryKey? other
  symbol : ∀ symbol, after.registry.importedKey? symbol = before.registry.importedKey? symbol
  sound : before.registry.Sound → after.registry.Sound

theorem adds_ensure {unit after : Compiler} {entry : Entry} (h : unit.ensure entry = .ok after) :
    Adds entry unit after := by
  obtain ⟨hs, rfl⟩ | ⟨hp, decls, id, hd, rfl⟩ | ⟨symbol, known, hp, hk, rfl⟩ := ensure_eq_ok h
  · exact ⟨Grows.refl _, hs, fun _ => rfl, fun _ => rfl, fun hs => hs⟩
  · -- a lowered body is declared and filed under a new key
    have hfound : (((unit.registry.internLowered entry).2.setId
        (unit.registry.internLowered entry).1 id).entryKey? entry).isSome := by
      rw [Registry.entryKey?_setId, Registry.entryKey?_internLowered]
      rfl
    refine ⟨⟨linkable_of_declare hd, rfl, ?_, fun hs => by simpa using hs⟩, hfound, ?_,
      fun _ => by simp,
      fun hs => hs.declare hp id⟩
    · intro other ho
      by_cases he : other = entry
      · rw [he]; exact hfound
      · rwa [Registry.entryKey?_setId, Registry.entryKey?_internLowered_of_ne _ he]
    · intro other he
      rw [Registry.entryKey?_setId, Registry.entryKey?_internLowered_of_ne _ he]
  · -- the routine behind an imported symbol is filed under the key that the symbol has
    have hsame := internImported_of_some hk
    have hfound : ((unit.registry.bindImported entry symbol).2.entryKey? entry).isSome := by
      rw [Registry.entryKey?_bindImported]
      rfl
    have hsym : ∀ other, (unit.registry.bindImported entry symbol).2.importedKey? other =
        unit.registry.importedKey? other := by
      intro other
      rw [Registry.importedKey?_bindImported, hsame]
    refine ⟨⟨rfl, rfl, ?_, fun {other} hs => by rwa [hsym other]⟩, hfound, ?_, hsym,
      fun hs => hs.bind hp hk⟩
    · intro other ho
      by_cases he : other = entry
      · rw [he]; exact hfound
      · rwa [Registry.entryKey?_bindImported_of_ne _ symbol he]
    · intro other he
      rw [Registry.entryKey?_bindImported_of_ne _ symbol he]

/-- What some entry points that are made available add. -/
structure AddsAll (entries : List Entry) (before after : Compiler) : Prop where
  grows : before.Grows after
  found : ∀ {entry}, entry ∈ entries → (after.registry.entryKey? entry).isSome
  other : ∀ {other}, other ∉ entries →
    after.registry.entryKey? other = before.registry.entryKey? other
  symbol : ∀ symbol, after.registry.importedKey? symbol = before.registry.importedKey? symbol
  sound : before.registry.Sound → after.registry.Sound

theorem addsAll_ensureAll {entries : List Entry} :
    ∀ {unit after : Compiler}, unit.ensureAll entries = .ok after → AddsAll entries unit after := by
  induction entries with
  | nil =>
    intro unit after h
    cases h
    exact ⟨Grows.refl _, fun he => by simp at he, fun _ => rfl, fun _ => rfl, fun hs => hs⟩
  | cons entry rest ih =>
    intro unit after h
    rw [ensureAll] at h
    split at h
    · cases h
    · next mid hm =>
      have hadds := adds_ensure hm
      have hrest := ih h
      refine ⟨hadds.grows.trans hrest.grows, ?_, ?_, ?_, fun hs => hrest.sound (hadds.sound hs)⟩
      · intro other ho
        rcases List.mem_cons.mp ho with rfl | ho
        · exact hrest.grows.entry hadds.found
        · exact hrest.found ho
      · intro other ho
        rw [List.mem_cons, not_or] at ho
        rw [hrest.other ho.2, hadds.other ho.1]
      · intro symbol
        rw [hrest.symbol, hadds.symbol]

end Compiler

end PullIter
