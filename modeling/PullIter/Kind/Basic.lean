import PullIter.ValueType
import PullIter.Intrinsic

/-!
# Iterator kinds

A kind describes fully how a value is iterated over: a combinator over other
kinds, a generator that some resume procedure drives, or an external iterator or
iterable that is known by the symbols of its entry points.

## Main definitions

* `External` — an iterator, or an iterable that makes one.
* `Kind` — enumerate, zip, generator, external.
* `Kind.array`, `Kind.range`, `Kind.coroutine` — the kinds of the built-in objects.
-/

namespace PullIter

/-- An iterable or iterator that is implemented elsewhere. -/
inductive External
  /-- Already an iterator: `next` advances it, and `release`, if there is one, ends it. -/
  | iterator (name : String) (yields : ValueType) (next : String) (release : Option String)
  /-- A container, from which `getiter` makes a fresh iterator. -/
  | iterable (name : String) (yields : ValueType) (getiter : String) (iterator : External)
  deriving DecidableEq, Repr

/-- A kind of iterable. -/
inductive Kind
  /-- The values of a source, each with a running count. -/
  | enumerate (source : Kind)
  /-- The values of any number of sources in lockstep. -/
  | zip (sources : List Kind)
  /-- A resumable computation, driven by the procedure `resume`. -/
  | generator (name : String) (yields : ValueType) (resume : String)
  /-- An iterable or iterator that is implemented elsewhere. -/
  | external (ext : External)
  deriving Repr

namespace Kind

/-! ### Equality -/

mutual

/-- Equality of kinds is decidable. -/
def decEq : (a b : Kind) → Decidable (a = b)
  | .enumerate s, b =>
    match b with
    | .enumerate t =>
      match decEq s t with
      | .isTrue h => .isTrue (by rw [h])
      | .isFalse h => .isFalse (by simpa using h)
    | .zip _ | .generator .. | .external _ => .isFalse (by simp)
  | .zip ss, b =>
    match b with
    | .zip ts =>
      match decEqList ss ts with
      | .isTrue h => .isTrue (by rw [h])
      | .isFalse h => .isFalse (by simpa using h)
    | .enumerate _ | .generator .. | .external _ => .isFalse (by simp)
  | .generator n y r, b =>
    match b with
    | .generator n' y' r' =>
      if h : n = n' ∧ y = y' ∧ r = r' then .isTrue (by obtain ⟨rfl, rfl, rfl⟩ := h; rfl)
      else .isFalse (by simpa using h)
    | .enumerate _ | .zip _ | .external _ => .isFalse (by simp)
  | .external e, b =>
    match b with
    | .external e' =>
      if h : e = e' then .isTrue (by rw [h]) else .isFalse (by simpa using h)
    | .enumerate _ | .zip _ | .generator .. => .isFalse (by simp)

/-- Equality of lists of kinds is decidable. -/
def decEqList : (as bs : List Kind) → Decidable (as = bs)
  | [], [] => .isTrue rfl
  | [], _ :: _ => .isFalse (by simp)
  | _ :: _, [] => .isFalse (by simp)
  | a :: as, b :: bs =>
    match decEq a b, decEqList as bs with
    | .isTrue h, .isTrue h' => .isTrue (by rw [h, h'])
    | .isFalse h, _ => .isFalse (by simp [h])
    | _, .isFalse h => .isFalse (by simp [h])

end

instance : DecidableEq Kind := decEq

/-! ### The kinds of built-in objects -/

/-- The array of 64-bit integers, an iterable. -/
def array : Kind :=
  .external (.iterable "array_i64" .i64 Intrinsic.arrayGetiter.name
    (.iterator "array_i64.iter" .i64 Intrinsic.arrayNext.name (some Intrinsic.arrayRelease.name)))

/-- The half-open range of 64-bit integers, an iterator. -/
def range : Kind :=
  .external (.iterator "range_i64" .i64 Intrinsic.rangeNext.name (some Intrinsic.rangeRelease.name))

/-- A generator over a coroutine of 64-bit integers. -/
def coroutine (name : String) : Kind := .generator name .i64 Intrinsic.generatorResume.name

end Kind

end PullIter
