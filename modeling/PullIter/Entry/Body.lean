import PullIter.Declarations
import PullIter.Layout.Standard
import PullIter.Registry

/-!
# Lowered bodies

What the code generator meets when it emits a body, in order: the fields that are
read and written, and the calls.  Each may be refused, and the first refusal is the
answer of the whole unit.

## Main definitions

* `Instr` — a field access or a call.
* `Entry.body` — the instructions of a lowered body.
* `Instr.emit` — resolve the instructions against what has been declared.

## Main results

* `Entry.releaseInstrs_eq`, `Entry.enumerateLayout_eq`, `Entry.zipLayout_eq` — what a body decides
  on its own is what is said of its kind.
-/

namespace PullIter

/-- The function that a call names. -/
inductive Callee
  /-- The provider of an entry point. -/
  | entry (entry : Entry)
  /-- A symbol. -/
  | symbol (name : String)
  deriving DecidableEq, Repr

/-- What the code generator has to resolve. -/
inductive Instr
  /-- The address of a field. -/
  | address (layout : Layout) (index : Nat)
  /-- Read a scalar field. -/
  | load (layout : Layout) (index : Nat)
  /-- Write a scalar field. -/
  | store (layout : Layout) (index : Nat)
  /-- Call a function.  If its result is needed, `needed` is what the callee is called in
  the complaint that there is none. -/
  | call (callee : Callee) (params : List Param) (needed : Option String)
  deriving Repr

namespace Entry

/-- The layout of what a kind yields.  A layout that a body is lowered with has no limit; one that
is asked for is given up to `Layout.maxSize`. -/
def yieldLayout (kind : Kind) : Layout := Layout.ofType targetPointerBytes kind.yields

/-- The layout that the body of an enumerate stores into. -/
def enumerateLayout (source : Kind) : Layout :=
  Layout.ofType targetPointerBytes (Kind.enumerateYields source)

/-- The layout that the body of a zip stores into. -/
def zipLayout (sources : List Kind) : Layout :=
  Layout.ofType targetPointerBytes (Kind.zipYields sources)

/-- Make an iterator of a source.  An iterator is its own iterator, and no call is made. -/
def getiterInstrs (source : Kind) : List Instr :=
  match source.getiterSymbol? with
  | some symbol => [.call (.symbol symbol) Shape.getiter.params (some symbol)]
  | none => []

/-- Advance an iterator. -/
def nextInstr (iterator : Kind) : Instr :=
  .call (.entry ⟨.iternext, iterator⟩) Shape.iternext.params (some "iternext")

/-- Release what `getiter` returned for a source, if it is owned and can be released. -/
def releaseInstrs (source : Kind) : List Instr :=
  if source.ownership = .owned && source.iteratorKind.needsRelease then
    [.call (.entry ⟨.release, source.iteratorKind⟩) Shape.release.params none]
  else []

/-- Fetch what `getiter` returned for a source of a combinator, and release it.  Nothing is
fetched for a source whose release is not listed. -/
def releaseFetched (source : Kind) (fetch : Instr) : List Instr :=
  if (sourceRelease source).isEmpty then [] else fetch :: releaseInstrs source

/-- Get zeroed storage for the state of a combinator. -/
def allocInstr : Instr :=
  .call (.symbol Intrinsic.alloc.name) Shape.alloc.params (some Intrinsic.alloc.name)

/-- Give the storage back. -/
def freeInstr : Instr := .call (.symbol Intrinsic.free.name) Shape.free.params none

/-- The state record of an enumerate on the target. -/
def enumerateState : Layout := Layout.enumerateState targetPointerBytes

/-- The state record of a zip on the target. -/
def zipState (sources : Nat) : Layout := Layout.zipState targetPointerBytes sources

/-- The argument record of a constructor of the kind; only combinators have one.  It has no
limit either. -/
def argsLayout? (kind : Kind) (args : List Scalar) : Option Layout :=
  match kind with
  | .enumerate _ => some (Layout.enumerateArgs targetPointerBytes args)
  | .zip _ => some (Layout.zipArgs targetPointerBytes args)
  | .generator .. | .external _ => none

/-- The instructions of a lowered body. -/
def body (entry : Entry) : Except Error (List Instr) :=
  match entry.op, entry.kind with
  | .getiter, kind => .ok (getiterInstrs kind)
  | .forEach, kind =>
    .ok (getiterInstrs kind ++ [nextInstr kind.iteratorKind] ++ releaseInstrs kind)
  | .iternext, .enumerate source =>
    .ok [.load enumerateState Layout.countIndex, .store enumerateState Layout.countIndex,
      .load enumerateState Layout.sourceIndex, .address (enumerateLayout source) 1,
      nextInstr source.iteratorKind, .store (enumerateLayout source) 0]
  | .iternext, .zip sources =>
    .ok (sources.zipIdx.flatMap fun (source, index) =>
      [.load (zipState sources.length) index, .address (zipLayout sources) index,
        nextInstr source.iteratorKind])
  | .iternext, .generator _ _ resume =>
    .ok [.call (.symbol resume) Shape.iternext.params (some resume)]
  | .iternext, .external _ => .error (.internal "no iternext lowering for kind" none)
  | .release, .enumerate source =>
    .ok (releaseFetched source (.load enumerateState Layout.sourceIndex) ++ [freeInstr])
  | .release, .zip sources =>
    .ok ((sources.zipIdx.flatMap fun (source, index) =>
      releaseFetched source (.load (zipState sources.length) index)) ++ [freeInstr])
  | .release, .generator .. | .release, .external _ =>
    .error (.internal "no release lowering for kind" none)
  | .construct args, .enumerate source =>
    let record := Layout.enumerateArgs targetPointerBytes args
    .ok ([.load record 0] ++ (if 1 < args.length then [.load record 1] else []) ++
      getiterInstrs source ++
      [allocInstr, .store enumerateState Layout.countIndex, .store enumerateState Layout.sourceIndex])
  | .construct args, .zip sources =>
    let record := Layout.zipArgs targetPointerBytes args
    .ok ([allocInstr] ++ sources.zipIdx.flatMap fun (source, index) =>
      [.load record index] ++ getiterInstrs source ++ [.store (zipState sources.length) index])
  | .construct _, .generator .. | .construct _, .external _ =>
    .error (.internal "no constructor lowering for kind" none)

/-! ### What is written down more than once -/

/-- A release is emitted exactly if it is listed. -/
theorem releaseInstrs_eq (source : Kind) : releaseInstrs source =
    (sourceRelease source).map fun entry => .call (.entry entry) Shape.release.params none := by
  rw [releaseInstrs, sourceRelease, Kind.releasesMade]
  split <;> rfl

/-- The body of an enumerate stores into the layout of what the enumerate yields. -/
theorem enumerateLayout_eq (source : Kind) : enumerateLayout source = yieldLayout (.enumerate source) := by
  rw [enumerateLayout, Kind.enumerateYields_eq, yieldLayout]

/-- The body of a zip stores into the layout of what the zip yields. -/
theorem zipLayout_eq (sources : List Kind) : zipLayout sources = yieldLayout (.zip sources) := by
  rw [zipLayout, Kind.zipYields_eq, yieldLayout]

end Entry

namespace Callee

/-- The identity of the function that a call names. -/
def resolve (registry : Registry) : Callee → Except Error Nat
  | entry e =>
    match registry.entryKey? e with
    | none => .error (.internal "entry point not declared" (some e.symbolName))
    | some key =>
      match registry.id? key with
      | none => .error (.internal "entry point has no id" (registry.display? key))
      | some id => .ok id
  | symbol name =>
    match (registry.importedKey? name).bind registry.id? with
    | none => .error (.notFound "imported function" name)
    | some id => .ok id

end Callee

namespace Instr

/-- Access a field that has to be a scalar. -/
def emitAccess (layout : Layout) (index : Nat) (refusal : String) : Except Error Unit :=
  match layout.field index with
  | .error e => .error e
  | .ok field =>
    if field.layout.scalarKind?.isSome then .ok () else .error (.internal refusal (some field.name))

/-- Emit one instruction.  The answer is whether the arguments of a call are those that
the callee is declared with. -/
def emitOne (registry : Registry) (decls : Declarations) : Instr → Except Error Bool
  | address layout index => (layout.field index).map fun _ => true
  | load layout index => (emitAccess layout index "load of aggregate field").map fun _ => true
  | store layout index => (emitAccess layout index "store to aggregate field").map fun _ => true
  | call callee params needed =>
    match callee.resolve registry with
    | .error e => .error e
    | .ok id =>
      let signature := ((decls.names[id]?).map Prod.snd).getD ⟨[], []⟩
      match needed, signature.returns with
      | some label, [] => .error (.internal "call returned no value" (some label))
      | _, _ => .ok (signature.params == params.map (Param.register targetPointerBytes))

/-- Emit instructions in order, up to the first refusal.  The answer is whether every call
fits its callee. -/
def emit (registry : Registry) (decls : Declarations) : List Instr → Except Error Bool
  | [] => .ok true
  | instr :: rest =>
    match emitOne registry decls instr with
    | .error e => .error e
    | .ok fits => (emit registry decls rest).map (fits && ·)

end Instr

end PullIter
