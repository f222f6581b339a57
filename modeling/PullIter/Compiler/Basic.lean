import PullIter.Entry.Body

/-!
# Compilation units

A unit takes requests for iterators, constructors and loops.  Each request is checked
and everything it needs is declared at once; the first request that fails decides the
unit, and every later request repeats its error.

## Main definitions

* `Request` — what can be asked for, with `Request.seeds`, the entry points it is
  answered by.
* `Compiler` — a unit that still takes requests.
* `Compiler.require` — make an entry point available, with all that it calls.
* `Compiler.request` — one request.

## Main results

* `request_of_failed` — a unit that has failed repeats its error and does not change.
-/

namespace PullIter

/-- What a compilation unit can be asked for. -/
inductive Request
  /-- An iterator over a value, with all that drives and releases it. -/
  | iterator (kind : Kind)
  /-- A constructor for arguments of these kinds, with all that drives and releases what
  it makes. -/
  | constructor (kind : Kind) (args : List Scalar)
  /-- A loop over a value. -/
  | loop (kind : Kind)
  deriving DecidableEq, Repr

namespace Request

/-- The kind that a request is about. -/
def kind : Request → Kind
  | iterator kind => kind
  | constructor kind _ => kind
  | loop kind => kind

/-- The entry points that answer a request. -/
def seeds : Request → List Entry
  | iterator kind =>
    ⟨.getiter, kind⟩ :: ⟨.iternext, kind.iteratorKind⟩ ::
      (if kind.ownership = .owned && kind.iteratorKind.needsRelease then
        [⟨.release, kind.iteratorKind⟩] else [])
  | constructor kind args =>
    ⟨.construct args, kind⟩ :: ⟨.iternext, kind⟩ ::
      (if kind.needsRelease then [⟨.release, kind⟩] else [])
  | loop kind => [⟨.forEach, kind⟩]

/-- A request decides on its own whether the iterator has to be released, and it decides as the
bodies do. -/
theorem seeds_iterator (kind : Kind) : (iterator kind).seeds =
    ⟨.getiter, kind⟩ :: ⟨.iternext, kind.iteratorKind⟩ :: Entry.sourceRelease kind := by
  rw [seeds, Entry.sourceRelease, Kind.releasesMade]

/-- Whether the arguments of a requested constructor are right. -/
def checkArgs : Request → Except Error Unit
  | constructor kind args => kind.checkConstructor args
  | iterator _ | loop _ => .ok ()

end Request

/-- A compilation unit that still takes requests. -/
structure Compiler where
  decls : Declarations
  registry : Registry
  /-- The error of the first request that failed. -/
  failure : Option Error
  deriving Repr

namespace Compiler

/-- A registry with the symbols that are imported from the start. -/
def eagerRegistry (decls : Declarations) : Registry :=
  decls.imported.foldl (fun registry (name, id) =>
    let (key, registry) := registry.internImported name
    registry.setId key id) .empty

/-- A fresh unit that can link some registered symbols besides the built-in ones. -/
def create (options : Options) (externals : List (String × Provider)) : Compiler :=
  let decls := Declarations.create options externals
  ⟨decls, eagerRegistry decls, none⟩

/-- A fresh unit with the options of an environment.  It can link the built-in symbols only. -/
def ofEnvironment (lookup : String → Option String) : Compiler := create (.ofEnvironment lookup) []

/-- Import a symbol in a shape.  The first shape of a symbol is the one it is declared
with. -/
def importUse (unit : Compiler) (symbol : String) (shape : Shape) : Except Error Compiler :=
  -- a symbol that was imported in another shape keeps the shape it has
  match unit.decls.importSymbol symbol (shape.signature targetPointerBytes) with
  | .error e => .error e
  | .ok (id, decls) =>
    let (key, registry) := unit.registry.internImported symbol
    .ok { unit with decls := decls, registry := registry.setId key id }

/-- Import symbols in order. -/
def importUses (unit : Compiler) : List (String × Shape) → Except Error Compiler
  | [] => .ok unit
  | (symbol, shape) :: rest =>
    match unit.importUse symbol shape with
    | .error e => .error e
    | .ok unit => unit.importUses rest

/-- Check a kind and import all its symbols. -/
def prepare (unit : Compiler) (kind : Kind) : Except Error Compiler :=
  match kind.check with
  | .error e => .error e
  | .ok () =>
    -- every symbol is looked for before the first is imported
    match kind.symbols.find? fun symbol => !unit.decls.hasSymbol symbol with
    | some missing => .error (.notFound "external symbol" missing)
    | none => unit.importUses kind.symbolUses

/-- Make an entry point available that is not: declare its body, or bind it to its symbol. -/
def provide (unit : Compiler) (entry : Entry) : Except Error Compiler :=
  match entry.provision with
  | .lowered =>
    match unit.decls.declare entry.symbolName (entry.op.shape.signature targetPointerBytes) with
    | .error e => .error e
    | .ok (id, decls) =>
      let (key, registry) := unit.registry.internLowered entry
      .ok { unit with decls := decls, registry := registry.setId key id }
  | .imported symbol =>
    match unit.registry.importedKey? symbol with
    | none => .error (.notFound "external symbol" symbol)
    | some _ => .ok { unit with registry := (unit.registry.bindImported entry symbol).2 }
  | .unsupported => .error (.unsupported "iterator entry point" (some entry.symbolName))

/-- Make an entry point available, unless it is, but nothing that its body calls. -/
def ensure (unit : Compiler) (entry : Entry) : Except Error Compiler :=
  if (unit.registry.entryKey? entry).isSome then .ok unit else unit.provide entry

/-- Make an entry point available, unless it is, and then what its body calls, calls nested
this deep. -/
def requireWithin : Nat → Compiler → Entry → Except Error Compiler
  | 0, unit, entry => unit.ensure entry
  | depth + 1, unit, entry =>
    -- what is available is not looked into again, even if its calls are still being made available
    if (unit.registry.entryKey? entry).isSome then .ok unit
    else
      match unit.provide entry with
      | .error e => .error e
      | .ok unit => entry.calls.foldlM (requireWithin depth) unit

/-- Make an entry point available with everything that its body calls, unless it is. -/
def require (unit : Compiler) (entry : Entry) : Except Error Compiler :=
  requireWithin entry.depth unit entry

/-- Meet a request in a unit that has not failed. -/
def attempt (unit : Compiler) (request : Request) : Except Error Compiler :=
  match unit.prepare request.kind with
  | .error e => .error e
  | .ok unit =>
    -- the arguments are checked once the symbols are imported
    match request.checkArgs with
    | .error e => .error e
    | .ok () => request.seeds.foldlM require unit

/-- One request, with its answer.  The first failure is kept. -/
def request (unit : Compiler) (request : Request) : Except Error Unit × Compiler :=
  match unit.failure with
  | some e => (.error e, unit)
  | none =>
    match unit.attempt request with
    | .ok unit => (.ok (), unit)
    | .error e => (.error e, { unit with failure := some e })

/-- **A unit that has failed** repeats its error and does not change. -/
theorem request_of_failed {unit : Compiler} {e : Error} (h : unit.failure = some e)
    (r : Request) : unit.request r = (.error e, unit) := by
  simp [request, h]

end Compiler

end PullIter
