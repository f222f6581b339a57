import PullIter.Fault
import PullIter.Status

/-!
# Generators

A generator drives a body that suspends with values and finally returns, either
normally or with a failure word.  The body must not be resumed after it has returned;
the generator keeps the final outcome and repeats it.

## Main definitions

* `Yields` — the values that a body has still to yield, with `Yields.toList`.
* `Coroutine` — a body, with `Coroutine.resume`.
* `Generator` — a body with the outcome it has ended with, and `Generator.resume`.
* `Resumption.status` — the status word of a resumption.

## Main results

* `toList_eq_of_next?`, `next?_eq_none_iff` — the next value is the head of the list.
* `resume_of_finished` — a finished generator repeats its outcome and does not change.
-/

namespace PullIter

/-! ### The values to come -/

/-- The first `n` Fibonacci numbers from the pair `a`, `b` on, in 64-bit arithmetic. -/
def fibonacci (n : Nat) (a b : Int64) : List Int64 :=
  match n with
  | 0 => []
  | n + 1 => a :: fibonacci n b (a + b)

/-- The values that a body has still to yield. -/
inductive Yields
  /-- Some given values. -/
  | given (values : List Int64)
  /-- A number of Fibonacci numbers from a pair on; they are computed one by one. -/
  | fibonacci (count : Nat) (a b : Int64)
  deriving DecidableEq, Repr

namespace Yields

/-- The values in order. -/
def toList : Yields → List Int64
  | given values => values
  | fibonacci count a b => PullIter.fibonacci count a b

/-- The next value, and the values behind it. -/
def next? : Yields → Option (Int64 × Yields)
  | given [] => none
  | given (value :: rest) => some (value, given rest)
  | fibonacci 0 _ _ => none
  | fibonacci (count + 1) a b => some (a, fibonacci count b (a + b))

/-- The number of values. -/
def count : Yields → Nat
  | given values => values.length
  | fibonacci count _ _ => count

/-- The next value is the head of the list. -/
theorem toList_eq_of_next? {yields rest : Yields} {value : Int64}
    (h : yields.next? = some (value, rest)) : yields.toList = value :: rest.toList := by
  unfold next? at h
  split at h <;> cases h <;> rfl

/-- There is no next value if and only if the list is empty. -/
theorem next?_eq_none_iff (yields : Yields) : yields.next? = none ↔ yields.toList = [] := by
  unfold next?
  split <;> simp [toList, PullIter.fibonacci]

theorem length_toList (yields : Yields) : yields.toList.length = yields.count := by
  cases yields with
  | given values => rfl
  | fibonacci count a b =>
    simp only [toList, Yields.count]
    induction count generalizing a b with
    | zero => rfl
    | succ count ih => rw [PullIter.fibonacci, List.length_cons, ih]

end Yields

/-! ### Bodies -/

/-- A body that yields some values and then returns. -/
structure Coroutine where
  /-- The values it has still to yield. -/
  pending : Yields
  /-- The failure word it returns with, if it fails. -/
  failure : Option Int32
  /-- It has returned. -/
  returned : Bool
  deriving DecidableEq, Repr

/-- How a resumption ended. -/
inductive Resumption
  /-- The body suspended with a value. -/
  | yielded (value : Int64)
  /-- The body returned normally. -/
  | stopped
  /-- The body returned with a failure word. -/
  | errored (code : Int32)
  deriving DecidableEq, Repr

namespace Coroutine

/-- A fresh body. -/
def start (yields : Yields) (failure : Option Int32) : Coroutine := ⟨yields, failure, false⟩

/-- Run the body up to its next value, or to its end.  A body that has returned must not
be resumed. -/
def resume (body : Coroutine) : Except Fault (Resumption × Coroutine) :=
  if body.returned then .error .resumedAfterReturn
  else
    match body.pending.next?, body.failure with
    | some (value, pending), _ => .ok (.yielded value, { body with pending := pending })
    | none, none => .ok (.stopped, { body with returned := true })
    | none, some code => .ok (.errored code, { body with returned := true })

end Coroutine

namespace Resumption

/-- The body has returned. -/
def isFinal : Resumption → Bool
  | yielded _ => false
  | stopped | errored _ => true

/-- The status word of a resumption.  A body that fails with a reserved word is reported
as failing with `Status.error`. -/
def status : Resumption → Status
  | yielded _ => Status.ok
  | stopped => Status.stop
  | errored code => if code = Status.ok || code = Status.stop then Status.error else code

end Resumption

/-! ### Generators -/

/-- A body with the outcome it has ended with. -/
structure Generator where
  body : Coroutine
  finished : Option Resumption
  deriving DecidableEq, Repr

namespace Generator

/-- A generator over a fresh body. -/
def start (yields : Yields) (failure : Option Int32) : Generator := ⟨.start yields failure, none⟩

/-- A generator that fails behind its values.  Its failure word must tell a failure. -/
def failing (yields : Yields) (code : Int32) : Except Fault Generator :=
  if Status.isFailure code then .ok (start yields (some code)) else .error (.reservedFailure code)

/-- Advance by one step.  Once finished, the final outcome is repeated and the body is
left alone. -/
def resume (generator : Generator) : Except Fault (Resumption × Generator) :=
  match generator.finished with
  | some outcome => .ok (outcome, generator)
  | none =>
    -- without an outcome the body has not returned yet
    match generator.body.resume with
    | .error fault => .error fault
    | .ok (outcome, body) => .ok (outcome, ⟨body, if outcome.isFinal then some outcome else none⟩)

/-- The generator has ended. -/
def isFinished (generator : Generator) : Bool := generator.finished.isSome

/-- **A finished generator** repeats its outcome and does not change. -/
theorem resume_of_finished {generator : Generator} {outcome : Resumption}
    (h : generator.finished = some outcome) : generator.resume = .ok (outcome, generator) := by
  simp [resume, h]

end Generator

end PullIter
