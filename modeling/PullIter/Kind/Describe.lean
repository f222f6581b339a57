import PullIter.Kind.Basic
import PullIter.Error

/-!
# What a kind says about its values

Everything that is known of a kind before any code exists: its printed name,
whether its values are iterators, who owns what `getiter` returns, what is
yielded, which symbols are used and in which shape.

## Main definitions

* `Kind.name` — the printed form, `zip[array_i64,enumerate[range_i64]]`.
* `Kind.iteratorKind`, `Kind.ownership` — what `getiter` returns, and who owns it.
* `Kind.yields` — the type of the yielded values, and `Kind.enumerateYields`,
  `Kind.zipYields`, the same as the bodies of combinators put it together.
* `Kind.symbols`, `Kind.symbolUses` — the symbols of a kind, outermost first, and
  the shapes they are called in.
* `Kind.check` — whether every iterable makes an iterator.
* `Kind.depth` — how deep the sources nest.
-/

namespace PullIter

namespace External

/-- The name of the descriptor. -/
def name : External → String
  | iterator name .. => name
  | iterable name .. => name

/-- The type that the descriptor states. -/
def statedYields : External → ValueType
  | iterator _ yields _ _ => yields
  | iterable _ yields _ _ => yields

/-- The value is an iterator already. -/
def isIterator : External → Bool
  | iterator .. => true
  | iterable .. => false

/-- What `getiter` returns for the value. -/
def made : External → External
  | iterator n y next release => iterator n y next release
  | iterable _ _ _ made => made

/-- The type of the yielded values: an iterable yields what its iterator states. -/
def yields : External → ValueType
  | iterator _ yields _ _ => yields
  | iterable _ _ _ made => made.statedYields

/-- The symbols of the descriptor, outermost first. -/
def symbols : External → List String
  | iterator _ _ next release => next :: release.toList
  | iterable _ _ getiter made => getiter :: symbols made

/-- The symbols of the descriptor with the shapes they are called in. -/
def symbolUses : External → List (String × Shape)
  | iterator _ _ next release =>
    (next, .iternext) :: release.toList.map fun symbol => (symbol, .release)
  | iterable _ _ getiter made => (getiter, .getiter) :: symbolUses made

/-- An iterable has to make an iterator. -/
def check : External → Except Error Unit
  | iterator .. => .ok ()
  | iterable _ _ _ made =>
    if made.isIterator then .ok ()
    else .error (.typeMismatch "getiter result" "iterator" made.name)

end External

/-- Whether what `getiter` returns belongs to the caller. -/
inductive Ownership
  /-- A fresh iterator, which the caller releases exactly once. -/
  | owned
  /-- An alias of the value itself, which the caller never releases. -/
  | borrowed
  deriving DecidableEq, Repr

namespace Kind

mutual

/-- The printed name, which also names compiled entry points. -/
def name : Kind → String
  | enumerate source => "enumerate[" ++ name source ++ "]"
  | zip sources => "zip[" ++ names sources ++ "]"
  | generator name _ _ => "generator[" ++ name ++ "]"
  | external ext => ext.name

/-- Printed names with commas between them. -/
def names : List Kind → String
  | [] => ""
  | [kind] => name kind
  | kind :: rest => name kind ++ "," ++ names rest

end

/-- The value is an iterator already. -/
def isIterator : Kind → Bool
  | enumerate _ | zip _ | generator .. => true
  | external ext => ext.isIterator

/-- Who owns what `getiter` returns. -/
def ownership (kind : Kind) : Ownership := if kind.isIterator then .borrowed else .owned

/-- The kind of what `getiter` returns. -/
def iteratorKind : Kind → Kind
  | external ext => external ext.made
  | kind => kind

/-- The symbol that makes an iterator, for kinds that are none. -/
def getiterSymbol? : Kind → Option String
  | external (.iterable _ _ getiter _) => some getiter
  | _ => none

mutual

/-- The type of the yielded values. -/
def yields : Kind → ValueType
  | enumerate source => .tuple [.i64, yields source]
  | zip sources => .tuple (yieldsList sources)
  | generator _ yields _ => yields
  | external ext => ext.yields

/-- The types that kinds yield, in order. -/
def yieldsList : List Kind → List ValueType
  | [] => []
  | kind :: rest => yields kind :: yieldsList rest

end

@[simp] theorem length_yieldsList (kinds : List Kind) :
    (yieldsList kinds).length = kinds.length := by
  induction kinds with
  | nil => rfl
  | cons kind rest ih => rw [yieldsList, List.length_cons, ih, List.length_cons]

/-- The type of the values of an enumerate, as its body puts it together. -/
def enumerateYields (source : Kind) : ValueType := .tuple [.i64, source.yields]

/-- The type of the values of a zip, as its body puts it together. -/
def zipYields (sources : List Kind) : ValueType := .tuple (sources.map yields)

theorem map_yields (kinds : List Kind) : kinds.map yields = yieldsList kinds := by
  induction kinds with
  | nil => rfl
  | cons kind rest ih => rw [List.map_cons, ih, yieldsList]

/-- The body of an enumerate knows the type of its values. -/
theorem enumerateYields_eq (source : Kind) : enumerateYields source = (enumerate source).yields := by
  rw [enumerateYields, yields]

/-- So does the body of a zip. -/
theorem zipYields_eq (sources : List Kind) : zipYields sources = (zip sources).yields := by
  rw [zipYields, map_yields, yields]

/-- An owned value of the kind has a release routine.  Generators are owned by whoever
made them, and an external iterator may have no release symbol. -/
def needsRelease : Kind → Bool
  | enumerate _ | zip _ => true
  | generator .. => false
  | external (.iterator _ _ _ release) => release.isSome
  | external (.iterable ..) => false

/-- What `getiter` returns for a source has to be released by its owner.  A body lists the
releases that it calls by this condition; what it emits decides the same on its own. -/
def releasesMade (source : Kind) : Bool :=
  source.ownership = .owned && source.iteratorKind.needsRelease

mutual

/-- Every symbol of a kind, outermost first and from left to right. -/
def symbols : Kind → List String
  | enumerate source => symbols source
  | zip sources => symbolsList sources
  | generator _ _ resume => [resume]
  | external ext => ext.symbols

/-- Every symbol of some kinds, from left to right. -/
def symbolsList : List Kind → List String
  | [] => []
  | kind :: rest => symbols kind ++ symbolsList rest

end

theorem symbolsList_eq (kinds : List Kind) : symbolsList kinds = kinds.flatMap symbols := by
  induction kinds with
  | nil => rfl
  | cons kind kinds ih => rw [symbolsList, ih, List.flatMap_cons]

mutual

/-- Every symbol of a kind with the shape it is called in. -/
def symbolUses : Kind → List (String × Shape)
  | enumerate source => symbolUses source
  | zip sources => symbolUsesList sources
  | generator _ _ resume => [(resume, .iternext)]
  | external ext => ext.symbolUses

/-- Every symbol of some kinds with its shape, from left to right. -/
def symbolUsesList : List Kind → List (String × Shape)
  | [] => []
  | kind :: rest => symbolUses kind ++ symbolUsesList rest

end

mutual

/-- Every iterable within the kind has to make an iterator.  The first that does not
is the error. -/
def check : Kind → Except Error Unit
  | enumerate source => check source
  | zip sources => checkList sources
  | generator .. => .ok ()
  | external ext => ext.check

/-- The same for some kinds, from left to right. -/
def checkList : List Kind → Except Error Unit
  | [] => .ok ()
  | kind :: rest =>
    match check kind with
    | .ok () => checkList rest
    | .error e => .error e

end

mutual

/-- How deep the sources of a kind nest. -/
def depth : Kind → Nat
  | enumerate source => depth source + 1
  | zip sources => depthList sources + 1
  | generator .. | external _ => 0

/-- The largest depth of some kinds. -/
def depthList : List Kind → Nat
  | [] => 0
  | kind :: rest => max (depth kind) (depthList rest)

end

end Kind

end PullIter
