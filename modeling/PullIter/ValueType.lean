import PullIter.Scalar

/-!
# Types of yielded values

An iterator yields scalars or tuples of yielded values, nested to any depth; the
empty tuple is a value type of its own.

## Main definitions

* `ValueType` — a scalar or a tuple.
* `ValueType.name` — the written form, `(i64, (f64, bool))`.
* `ValueType.decEq` — equality is decided by walking both types together.
-/

namespace PullIter

/-- The type of a yielded value. -/
inductive ValueType
  /-- One scalar. -/
  | scalar (kind : Scalar)
  /-- A tuple of any number of values. -/
  | tuple (fields : List ValueType)
  deriving Repr, Inhabited

namespace ValueType

/-- The type of a 64-bit integer. -/
abbrev i64 : ValueType := .scalar .i64

mutual

/-- The written form of a type. -/
def name : ValueType → String
  | .scalar kind => kind.name
  | .tuple fields => "(" ++ names fields ++ ")"

/-- The written forms of a list of types, separated by a comma and a blank. -/
def names : List ValueType → String
  | [] => ""
  | [field] => name field
  | field :: rest => name field ++ ", " ++ names rest

end

mutual

/-- Equality of value types is decidable. -/
def decEq : (a b : ValueType) → Decidable (a = b)
  | .scalar k, .scalar l =>
    if h : k = l then .isTrue (by rw [h]) else .isFalse (by simpa using h)
  | .scalar _, .tuple _ => .isFalse (by simp)
  | .tuple _, .scalar _ => .isFalse (by simp)
  | .tuple fs, .tuple gs =>
    match decEqList fs gs with
    | .isTrue h => .isTrue (by rw [h])
    | .isFalse h => .isFalse (by simpa using h)

/-- Equality of lists of value types is decidable. -/
def decEqList : (as bs : List ValueType) → Decidable (as = bs)
  | [], [] => .isTrue rfl
  | [], _ :: _ => .isFalse (by simp)
  | _ :: _, [] => .isFalse (by simp)
  | a :: as, b :: bs =>
    match decEq a b, decEqList as bs with
    | .isTrue h, .isTrue h' => .isTrue (by rw [h, h'])
    | .isFalse h, _ => .isFalse (by simp [h])
    | _, .isFalse h => .isFalse (by simp [h])

end

instance : DecidableEq ValueType := decEq

end ValueType

end PullIter
