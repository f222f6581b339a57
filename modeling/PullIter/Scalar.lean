/-!
# Scalars and registers

The machine values that iterators pass around.  A scalar has a size in memory,
which for a pointer depends on the target, and a register type it is held in
while it is worked on.

## Main definitions

* `Register` — the register types.
* `Scalar` — the five kinds of scalar.
* `Scalar.size w`, `Scalar.register w` — size and register on a target whose
  pointers have `w` bytes.
-/

namespace PullIter

/-- A register type. -/
inductive Register
  | i8
  | i32
  | i64
  | f64
  deriving DecidableEq, Repr, Inhabited

namespace Register

/-- The written name of a register type. -/
def name : Register → String
  | i8 => "i8"
  | i32 => "i32"
  | i64 => "i64"
  | f64 => "f64"

/-- The number of bytes a register type holds. -/
def bytes : Register → Nat
  | i8 => 1
  | i32 => 4
  | i64 => 8
  | f64 => 8

/-- The register type of a pointer of `w` bytes: four bytes have their own, and
every other width uses the widest integer. -/
def pointer (w : Nat) : Register := if w = 4 then i32 else i64

end Register

/-- A kind of scalar. -/
inductive Scalar
  | bool
  | i32
  | i64
  | f64
  | ptr
  deriving DecidableEq, Repr, Inhabited

namespace Scalar

/-- The written name of a scalar kind. -/
def name : Scalar → String
  | bool => "bool"
  | i32 => "i32"
  | i64 => "i64"
  | f64 => "f64"
  | ptr => "ptr"

/-- The kinds that may start a counter. -/
def isInteger : Scalar → Bool
  | bool | i32 | i64 => true
  | f64 | ptr => false

/-- The size in bytes on a target whose pointers have `w` bytes. -/
def size (w : Nat) : Scalar → Nat
  | bool => 1
  | i32 => 4
  | i64 | f64 => 8
  | ptr => w

/-- The register type that holds the scalar. -/
def register (w : Nat) : Scalar → Register
  | bool => .i8
  | i32 => .i32
  | i64 => .i64
  | f64 => .f64
  | ptr => Register.pointer w

@[simp] theorem size_bool (w : Nat) : bool.size w = 1 := rfl

@[simp] theorem size_i32 (w : Nat) : i32.size w = 4 := rfl

@[simp] theorem size_i64 (w : Nat) : i64.size w = 8 := rfl

@[simp] theorem size_f64 (w : Nat) : f64.size w = 8 := rfl

@[simp] theorem size_ptr (w : Nat) : ptr.size w = w := rfl

/-- On a target with pointers of positive width every scalar takes room. -/
theorem size_pos {w : Nat} (hw : 0 < w) (k : Scalar) : 0 < k.size w := by
  cases k <;> simp [size, hw]

/-- The names tell the kinds apart. -/
theorem name_injective {a b : Scalar} (h : a.name = b.name) : a = b := by
  revert h; cases a <;> cases b <;> decide

end Scalar

end PullIter
