import PullIter.Registry

/-!
# Working on a registry step by step

## Main definitions

* `Registry.Action`, `Registry.Answer` — a step, and its answer.
* `Registry.act`, `Registry.run` — one step, and all steps on a registry without functions.
-/

namespace PullIter.Registry

/-- One step on a registry. -/
inductive Action
  | internLowered (entry : Entry)
  | bindImported (entry : Entry) (symbol : String)
  | internImported (symbol : String)
  | entryKey (entry : Entry)
  | importedKey (symbol : String)
  | setId (key id : Nat)
  | key (key : Nat)
  | lowered
  deriving Repr

/-- What a step answers. -/
inductive Answer
  | none
  /-- A function, by its key. -/
  | function (key : Nat) (record : FunctionRecord)
  /-- The symbols of the lowered bodies with their identities. -/
  | lowered (bodies : List (String × Option Nat))
  deriving Repr

/-- The answer for a key. -/
def shown (registry : Registry) (key : Option Nat) : Answer :=
  match key with
  | none => .none
  | some key =>
    match registry.functions[key]? with
    | some record => .function key record
    | none => .none

/-- One step: its answer, and the registry after it.  A new function has the next key, so
keys count the functions in the order in which answers first showed them. -/
def act (registry : Registry) : Action → Answer × Registry
  | .internLowered entry =>
    let (key, registry) := registry.internLowered entry
    (registry.shown key, registry)
  | .bindImported entry symbol =>
    let (key, registry) := registry.bindImported entry symbol
    (registry.shown key, registry)
  | .internImported symbol =>
    let (key, registry) := registry.internImported symbol
    (registry.shown key, registry)
  | .entryKey entry => (registry.shown (registry.entryKey? entry), registry)
  | .importedKey symbol => (registry.shown (registry.importedKey? symbol), registry)
  | .setId key id => (.none, registry.setId key id)
  | .key key => (registry.shown key, registry)
  | .lowered =>
    (.lowered (registry.lowered.map fun (entry, id) => (entry.symbolName, id)), registry)

/-- The answers to steps in order. -/
def answers (registry : Registry) : List Action → List Answer
  | [] => []
  | action :: rest =>
    let (answer, registry) := registry.act action
    answer :: registry.answers rest

/-- The answers to steps on a registry without functions. -/
def run (actions : List Action) : List Answer := empty.answers actions

end PullIter.Registry
