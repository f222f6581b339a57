import PullIter.Entry.Basic

/-!
# The registry of functions

A compilation unit knows each of its functions by a key.  A function is a lowered
body, named by its entry point, or a symbol.  An entry point is looked up to find
the function that provides it, which for an external iterator is a symbol.

## Main definitions

* `Registry` — the functions in the order of their keys, and the two look-ups.
* `Registry.internLowered`, `Registry.internImported`, `Registry.bindImported` — find
  or make a function.
* `Registry.entryKey?`, `Registry.importedKey?` — the look-ups.
* `Registry.lowered` — the lowered bodies in the order in which they were made.

## Main results

* `entryKey?_internLowered`, `entryKey?_bindImported`, `importedKey?_internImported` — what
  was found or made is found again.
* `name?_setId`, `id?_setId_self`, `id?_setId_of_ne` — an identity is noted for one
  function only, and no function changes its name.
-/

namespace PullIter

/-- What a function is. -/
inductive FunctionName
  /-- A body that is generated. -/
  | lowered (entry : Entry)
  /-- A symbol. -/
  | imported (symbol : String)
  deriving DecidableEq, Repr

namespace FunctionName

/-- The symbol that the function is declared by. -/
def display : FunctionName → String
  | lowered entry => entry.symbolName
  | imported symbol => symbol

/-- The function is a symbol. -/
def isImported : FunctionName → Bool
  | lowered _ => false
  | imported _ => true

end FunctionName

/-- A function with the identity under which it is declared. -/
structure FunctionRecord where
  name : FunctionName
  id : Option Nat
  deriving DecidableEq, Repr

/-- The functions of a unit.  A key is a position in `functions`; on a machine it is a word of
32 bits, which tells as many functions apart.  Of several bindings of one entry point the newest,
which stands first, counts. -/
structure Registry where
  functions : List FunctionRecord
  entries : List (Entry × Nat)
  symbols : List (String × Nat)
  deriving DecidableEq, Repr

namespace Registry

/-- The registry without functions. -/
def empty : Registry := ⟨[], [], []⟩

/-- The key of the function that provides an entry point. -/
def entryKey? (registry : Registry) (entry : Entry) : Option Nat := registry.entries.lookup entry

/-- The key of a symbol. -/
def importedKey? (registry : Registry) (symbol : String) : Option Nat :=
  registry.symbols.lookup symbol

/-- Add a function without an identity; its key is the number of functions before it. -/
def add (registry : Registry) (name : FunctionName) : Registry :=
  { registry with functions := registry.functions ++ [⟨name, none⟩] }

/-- The key of the next function that is added.  It is not cut to 32 bits. -/
def nextKey (registry : Registry) : Nat := registry.functions.length

/-- Find or make the lowered body of an entry point. -/
def internLowered (registry : Registry) (entry : Entry) : Nat × Registry :=
  match registry.entryKey? entry with
  | some key => (key, registry)
  | none =>
    let key := registry.nextKey
    let registry := registry.add (.lowered entry)
    (key, { registry with entries := (entry, key) :: registry.entries })

/-- Find or make the function of a symbol. -/
def internImported (registry : Registry) (symbol : String) : Nat × Registry :=
  match registry.importedKey? symbol with
  | some key => (key, registry)
  | none =>
    let key := registry.nextKey
    let registry := registry.add (.imported symbol)
    (key, { registry with symbols := (symbol, key) :: registry.symbols })

/-- Let a symbol provide an entry point, whatever provided it before. -/
def bindImported (registry : Registry) (entry : Entry) (symbol : String) : Nat × Registry :=
  let (key, registry) := registry.internImported symbol
  (key, { registry with entries := (entry, key) :: registry.entries })

/-- Note the identity of a function.  An unknown key changes nothing. -/
def setId (registry : Registry) (key id : Nat) : Registry :=
  { registry with functions := registry.functions.modify key fun f => { f with id := some id } }

/-- What the function of a key is. -/
def name? (registry : Registry) (key : Nat) : Option FunctionName :=
  registry.functions[key]?.map FunctionRecord.name

/-- The identity of the function of a key. -/
def id? (registry : Registry) (key : Nat) : Option Nat :=
  registry.functions[key]?.bind FunctionRecord.id

/-- The symbol of the function of a key. -/
def display? (registry : Registry) (key : Nat) : Option String :=
  (registry.name? key).map FunctionName.display

/-- Whether the function of a key is a symbol. -/
def isImported? (registry : Registry) (key : Nat) : Option Bool :=
  (registry.name? key).map FunctionName.isImported

/-- The lowered bodies in the order in which they were made, with their identities. -/
def lowered (registry : Registry) : List (Entry × Option Nat) :=
  registry.functions.filterMap fun f =>
    match f.name with
    | .lowered entry => some (entry, f.id)
    | .imported _ => none

/-! ### What was made is found again -/

@[simp] theorem entryKey?_add (registry : Registry) (name : FunctionName) (entry : Entry) :
    (registry.add name).entryKey? entry = registry.entryKey? entry := rfl

@[simp] theorem importedKey?_add (registry : Registry) (name : FunctionName) (symbol : String) :
    (registry.add name).importedKey? symbol = registry.importedKey? symbol := rfl

/-- An entry point that was interned has the key that was answered. -/
theorem entryKey?_internLowered (registry : Registry) (entry : Entry) :
    (registry.internLowered entry).2.entryKey? entry = some (registry.internLowered entry).1 := by
  unfold internLowered
  split
  · next key h => exact h
  · next h => simp [entryKey?]

/-- A symbol that was interned has the key that was answered. -/
theorem importedKey?_internImported (registry : Registry) (symbol : String) :
    (registry.internImported symbol).2.importedKey? symbol =
      some (registry.internImported symbol).1 := by
  unfold internImported
  split
  · next key h => exact h
  · next h => simp [importedKey?]

/-- An entry point that was bound has the key of its symbol, whatever it had before. -/
theorem entryKey?_bindImported (registry : Registry) (entry : Entry) (symbol : String) :
    (registry.bindImported entry symbol).2.entryKey? entry =
      some (registry.internImported symbol).1 := by
  simp [bindImported, entryKey?]

/-- Interning a symbol leaves every entry point where it is. -/
@[simp] theorem entryKey?_internImported (registry : Registry) (symbol : String) (entry : Entry) :
    (registry.internImported symbol).2.entryKey? entry = registry.entryKey? entry := by
  unfold internImported
  split <;> rfl

/-! ### Identities -/

@[simp] theorem entryKey?_setId (registry : Registry) (key id : Nat) (entry : Entry) :
    (registry.setId key id).entryKey? entry = registry.entryKey? entry := rfl

@[simp] theorem importedKey?_setId (registry : Registry) (key id : Nat) (symbol : String) :
    (registry.setId key id).importedKey? symbol = registry.importedKey? symbol := rfl

/-- Noting an identity renames no function. -/
@[simp] theorem name?_setId (registry : Registry) (key id other : Nat) :
    (registry.setId key id).name? other = registry.name? other := by
  simp only [setId, name?, List.getElem?_modify]
  split <;> cases registry.functions[other]? <;> rfl

/-- A function that is there gets the identity that is noted. -/
theorem id?_setId_self {registry : Registry} {key : Nat} (h : key < registry.nextKey) (id : Nat) :
    (registry.setId key id).id? key = some id := by
  simp [setId, id?, List.getElem?_eq_getElem h]

/-- No other function does. -/
theorem id?_setId_of_ne (registry : Registry) {key other : Nat} (h : other ≠ key) (id : Nat) :
    (registry.setId key id).id? other = registry.id? other := by
  simp [setId, id?, Ne.symm h]

end Registry

end PullIter
