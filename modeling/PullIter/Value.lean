import PullIter.ValueType

/-!
# Yielded values

Values as the host sees them after decoding.  Floating-point numbers are kept as
their 64 bits, so that every bit pattern, also of a NaN, is a value of its own.

## Main definitions

* `Value` — a scalar or a tuple of values.
* `Value.i64?`, `Value.tuple?` — the integer, or the tuple, that a value is.
-/

namespace PullIter

/-- A yielded value. -/
inductive Value
  | bool (b : Bool)
  | i32 (n : Int32)
  | i64 (n : Int64)
  /-- A floating-point number, by its bits. -/
  | f64 (bits : UInt64)
  | ptr (address : UInt64)
  | tuple (items : List Value)
  deriving Inhabited

namespace Value

/-- The 64-bit integer that a value is, if it is one. -/
def i64? : Value → Option Int64
  | i64 n => some n
  | _ => none

/-- The items of a tuple. -/
def tuple? : Value → Option (List Value)
  | tuple items => some items
  | _ => none

/-- A tuple of two values. -/
abbrev pair (a b : Value) : Value := .tuple [a, b]

mutual

/-- Equality of values is decidable. -/
def decEq : (a b : Value) → Decidable (a = b)
  | .bool x, b =>
    match b with
    | .bool y => if h : x = y then .isTrue (by rw [h]) else .isFalse (by simpa using h)
    | .i32 _ | .i64 _ | .f64 _ | .ptr _ | .tuple _ => .isFalse (by simp)
  | .i32 x, b =>
    match b with
    | .i32 y => if h : x = y then .isTrue (by rw [h]) else .isFalse (by simpa using h)
    | .bool _ | .i64 _ | .f64 _ | .ptr _ | .tuple _ => .isFalse (by simp)
  | .i64 x, b =>
    match b with
    | .i64 y => if h : x = y then .isTrue (by rw [h]) else .isFalse (by simpa using h)
    | .bool _ | .i32 _ | .f64 _ | .ptr _ | .tuple _ => .isFalse (by simp)
  | .f64 x, b =>
    match b with
    | .f64 y => if h : x = y then .isTrue (by rw [h]) else .isFalse (by simpa using h)
    | .bool _ | .i32 _ | .i64 _ | .ptr _ | .tuple _ => .isFalse (by simp)
  | .ptr x, b =>
    match b with
    | .ptr y => if h : x = y then .isTrue (by rw [h]) else .isFalse (by simpa using h)
    | .bool _ | .i32 _ | .i64 _ | .f64 _ | .tuple _ => .isFalse (by simp)
  | .tuple xs, b =>
    match b with
    | .tuple ys =>
      match decEqList xs ys with
      | .isTrue h => .isTrue (by rw [h])
      | .isFalse h => .isFalse (by simpa using h)
    | .bool _ | .i32 _ | .i64 _ | .f64 _ | .ptr _ => .isFalse (by simp)

/-- Equality of lists of values is decidable. -/
def decEqList : (as bs : List Value) → Decidable (as = bs)
  | [], [] => .isTrue rfl
  | [], _ :: _ => .isFalse (by simp)
  | _ :: _, [] => .isFalse (by simp)
  | a :: as, b :: bs =>
    match decEq a b, decEqList as bs with
    | .isTrue h, .isTrue h' => .isTrue (by rw [h, h'])
    | .isFalse h, _ => .isFalse (by simp [h])
    | _, .isFalse h => .isFalse (by simp [h])

end

instance : DecidableEq Value := decEq

end Value

end PullIter
