import PullIter.Kind.Describe

/-!
# Entry points

An entry point is one operation for one kind.  Some entry points are lowered: a
body is generated for them.  The entry points of an external iterator are its own
symbols.  Whatever has neither is not supported.

## Main definitions

* `Op`, `Entry` — the operations, and an operation for a kind.
* `Entry.symbolName` — the symbol of a lowered body, `iternext.zip[array_i64]`.
* `Entry.provision` — how the entry point is provided.
* `Entry.calls` — the entry points that a lowered body calls.
* `Entry.depth` — how deep the calls of an entry point may nest.
* `Kind.checkConstructor` — whether a constructor takes arguments of given kinds.
-/

namespace PullIter

/-- An operation of the iterator protocol. -/
inductive Op
  /-- Make an iterator of a value. -/
  | getiter
  /-- Advance an iterator. -/
  | iternext
  /-- Give an owned iterator back. -/
  | release
  /-- Make a combinator from arguments of these kinds. -/
  | construct (args : List Scalar)
  /-- Run a loop over a value. -/
  | forEach
  deriving DecidableEq, Repr

namespace Op

/-- The first part of the symbol names of an operation. -/
def stem : Op → String
  | getiter => "getiter"
  | iternext => "iternext"
  | release => "release"
  | construct _ => "new"
  | forEach => "for_each"

/-- The shape that every provider of the operation has. -/
def shape : Op → Shape
  | getiter => .getiter
  | iternext => .iternext
  | release => .release
  | construct _ => .construct
  | forEach => .forEach

end Op

/-- An operation for a kind. -/
structure Entry where
  op : Op
  kind : Kind
  deriving DecidableEq, Repr

/-- How an entry point is provided. -/
inductive Provision
  /-- By a body that is generated. -/
  | lowered
  /-- By a symbol. -/
  | imported (symbol : String)
  /-- Not at all. -/
  | unsupported
  deriving DecidableEq, Repr

namespace Entry

/-- The symbol of the lowered body.  Constructors for different arguments have
different bodies. -/
def symbolName (entry : Entry) : String :=
  match entry.op with
  | .construct args =>
    entry.op.stem ++ "." ++ entry.kind.name ++ "(" ++ ",".intercalate (args.map Scalar.name) ++ ")"
  | _ => entry.op.stem ++ "." ++ entry.kind.name

/-- How the entry point is provided.  Getting an iterator and running a loop work the
same way for every kind. -/
def provision (entry : Entry) : Provision :=
  match entry.op, entry.kind with
  | .getiter, _ | .forEach, _ => .lowered
  | _, .enumerate _ | _, .zip _ => .lowered
  | .iternext, .generator .. => .lowered
  | .iternext, .external (.iterator _ _ next _) => .imported next
  | .release, .external (.iterator _ _ _ (some release)) => .imported release
  | _, _ => .unsupported

/-- The release of what `getiter` returns for a source, if its owner has to call it. -/
def sourceRelease (source : Kind) : List Entry :=
  if source.releasesMade then [⟨.release, source.iteratorKind⟩] else []

/-- The entry points that the lowered body calls. -/
def calls (entry : Entry) : List Entry :=
  match entry.op, entry.kind with
  | .forEach, kind => ⟨.iternext, kind.iteratorKind⟩ :: sourceRelease kind
  | .iternext, .enumerate source => [⟨.iternext, source.iteratorKind⟩]
  | .iternext, .zip sources => sources.map fun source => ⟨.iternext, source.iteratorKind⟩
  | .release, .enumerate source => sourceRelease source
  | .release, .zip sources => sources.flatMap sourceRelease
  | _, _ => []

/-- How deep the calls of the entry point may nest. -/
def depth (entry : Entry) : Nat :=
  match entry.op with
  | .forEach => entry.kind.depth + 1
  | _ => entry.kind.depth

end Entry

namespace Kind

/-- Whether a constructor of the kind takes arguments of these kinds: an enumerate takes
a source and possibly an integer start, a zip one source for each of its own. -/
def checkConstructor (kind : Kind) (args : List Scalar) : Except Error Unit :=
  match kind with
  | enumerate _ =>
    match args with
    | [] => .error (.argumentCount kind.name 1 0)
    | _ :: _ :: _ :: _ => .error (.argumentCount kind.name 2 args.length)
    | source :: start =>
      if source ≠ .ptr then
        .error (.typeMismatch "enumerate source" Scalar.ptr.name source.name)
      else
        match start.find? fun kind => !kind.isInteger with
        | some bad => .error (.typeMismatch "enumerate start" "integer" bad.name)
        | none => .ok ()
  | zip sources =>
    -- the number of arguments is looked at before their kinds
    if args.length ≠ sources.length then
      .error (.argumentCount kind.name sources.length args.length)
    else
      match args.find? fun arg => arg ≠ .ptr with
      | some bad => .error (.typeMismatch "zip source" Scalar.ptr.name bad.name)
      | none => .ok ()
  | generator .. | external _ => .error (.unsupported "constructor" (some kind.name))

end Kind

end PullIter
