import PullIter.Value

/-!
# Status words

Every step of an iterator, every resumption and every loop reports one 32-bit
word.  Two words are reserved: zero says that a value was produced, minus three
that the source is exhausted.  Any other word is a failure, and failures are
passed on bit for bit.

## Main definitions

* `Status` — the words, with `Status.ok`, `Status.stop` and `Status.error`.
* `Status.classify` — which of the three meanings a word has.
* `Outcome` — a step as the host sees it.
* `LoopExit` — how a loop over an iterator ended.
-/

namespace PullIter

/-- A status word. -/
abbrev Status := Int32

namespace Status

/-- A value was produced. -/
def ok : Status := 0

/-- The failure of a body that gives no usable word of its own. -/
def error : Status := -1

/-- The source is exhausted. -/
def stop : Status := -3

/-- What a status word means. -/
inductive Class
  | ok
  | stop
  | failure (code : Int32)
  deriving DecidableEq, Repr

/-- The meaning of a status word.  Only the two reserved words are no failures. -/
def classify (status : Status) : Class :=
  if status = ok then .ok else if status = stop then .stop else .failure status

/-- Neither a value nor exhaustion. -/
def isFailure (status : Status) : Bool := status ≠ ok && status ≠ stop

@[simp] theorem classify_ok : classify ok = .ok := rfl

@[simp] theorem classify_stop : classify stop = .stop := rfl

/-- A word that is not reserved is a failure with that very word. -/
theorem classify_of_isFailure {status : Status} (h : status.isFailure = true) :
    classify status = .failure status := by
  simp [isFailure] at h
  simp [classify, h]

end Status

/-- One step as the host sees it. -/
inductive Outcome
  /-- A value was produced. -/
  | valid (value : Value)
  /-- The source is exhausted. -/
  | exhausted
  /-- A failure word, unchanged. -/
  | failure (code : Int32)
  deriving DecidableEq, Inhabited

namespace Outcome

/-- The outcome of a status word, where the value is only asked for if there is
one. -/
def ofStatus (status : Status) (value : Unit → Value) : Outcome :=
  match status.classify with
  | .ok => .valid (value ())
  | .stop => .exhausted
  | .failure code => .failure code

/-- The step produced a value. -/
def isValid : Outcome → Bool
  | valid _ => true
  | _ => false

/-- The value of a valid step. -/
def value? : Outcome → Option Value
  | valid v => some v
  | _ => none

end Outcome

/-- How a loop over an iterator ended. -/
inductive LoopExit
  | exhausted
  /-- A failure word, unchanged. -/
  | failed (code : Int32)
  deriving DecidableEq, Repr, Inhabited

/-- A loop reports `ok` once its iterator is exhausted. -/
def LoopExit.ofStatus (status : Status) : LoopExit :=
  match status.classify with
  | .ok | .stop => .exhausted
  | .failure code => .failed code

end PullIter
