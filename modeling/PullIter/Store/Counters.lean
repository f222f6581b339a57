/-!
# Allocation counters

Every owned object is counted by what it holds, so that leaks and double releases
show.  The counters follow the calls that are made and may become negative.

## Main definitions

* `AllocKind` — what a counted allocation holds, with its numeric tag.
* `Counters` — one count per kind, with `Counters.bump` and `Counters.total`.

## Main results

* `count_bump` — a bump changes one count by its amount and leaves the others.
* `total_bump` — and the total by the same amount.
-/

namespace PullIter

/-- What a counted allocation holds. -/
inductive AllocKind
  /-- The state of a combinator. -/
  | combinatorState
  /-- An iterator over an array. -/
  | arrayIter
  /-- A range. -/
  | rangeIter
  /-- The storage of an array. -/
  | array
  deriving DecidableEq, Repr

namespace AllocKind

/-- Every kind, in the order of the tags. -/
def all : List AllocKind := [combinatorState, arrayIter, rangeIter, array]

/-- The written name. -/
def name : AllocKind → String
  | combinatorState => "combinator_state"
  | arrayIter => "array_iter"
  | rangeIter => "range_iter"
  | array => "array"

/-- The tag by which compiled code names the kind. -/
def tag : AllocKind → Int32
  | combinatorState => 0
  | arrayIter => 1
  | rangeIter => 2
  | array => 3

/-- The kind of a tag, if there is one. -/
def ofTag? (tag : Int32) : Option AllocKind := all.find? fun kind => kind.tag = tag

/-- The kind with a written name. -/
def ofName? (name : String) : Option AllocKind := all.find? fun kind => kind.name = name

/-- A tag gives its kind back. -/
theorem ofTag?_tag (kind : AllocKind) : ofTag? kind.tag = some kind := by cases kind <;> decide

end AllocKind

/-- The number of live allocations of each kind. -/
structure Counters where
  combinatorState : Int
  arrayIter : Int
  rangeIter : Int
  array : Int
  deriving DecidableEq, Repr

namespace Counters

/-- No allocations. -/
def zero : Counters := ⟨0, 0, 0, 0⟩

/-- The number of live allocations of a kind. -/
def count (counters : Counters) : AllocKind → Int
  | .combinatorState => counters.combinatorState
  | .arrayIter => counters.arrayIter
  | .rangeIter => counters.rangeIter
  | .array => counters.array

/-- Change the count of one kind. -/
def bump (counters : Counters) (kind : AllocKind) (by_ : Int) : Counters :=
  match kind with
  | .combinatorState => { counters with combinatorState := counters.combinatorState + by_ }
  | .arrayIter => { counters with arrayIter := counters.arrayIter + by_ }
  | .rangeIter => { counters with rangeIter := counters.rangeIter + by_ }
  | .array => { counters with array := counters.array + by_ }

/-- Change the count of the kind of a tag; an unknown tag is not counted. -/
def bumpTag (counters : Counters) (tag : Int32) (by_ : Int) : Counters :=
  match AllocKind.ofTag? tag with
  | some kind => counters.bump kind by_
  | none => counters

/-- The number of all live allocations. -/
def total (counters : Counters) : Int :=
  counters.combinatorState + counters.arrayIter + counters.rangeIter + counters.array

/-- A bump changes one count and leaves the others. -/
theorem count_bump (counters : Counters) (kind other : AllocKind) (by_ : Int) :
    (counters.bump kind by_).count other =
      counters.count other + if other = kind then by_ else 0 := by
  cases kind <;> cases other <;> simp [bump, count]

/-- A bump changes the total by its amount. -/
theorem total_bump (counters : Counters) (kind : AllocKind) (by_ : Int) :
    (counters.bump kind by_).total = counters.total + by_ := by
  cases kind <;> simp only [bump, total] <;> omega

end Counters

end PullIter
