import PullIter.Scalar

/-!
# Call shapes and built-in symbols

Compiled code calls functions of a few shapes only.  The built-in symbols are the
ones every unit can link without registering them.

## Main definitions

* `Param`, `Shape` — parameters, and the shape of a function.
* `Shape.getiter`, `Shape.iternext`, .. — the shapes in use.
* `Signature` — a shape on a given target.
* `Intrinsic` — the built-in symbols with their names and shapes.
-/

namespace PullIter

/-- The type of a parameter or a result. -/
inductive Param
  | ptr
  | i32
  | i64
  deriving DecidableEq, Repr

namespace Param

/-- The written name. -/
def name : Param → String
  | ptr => "Ptr"
  | i32 => "I32"
  | i64 => "I64"

/-- The register type on a target whose pointers have `w` bytes. -/
def register (w : Nat) : Param → Register
  | ptr => Register.pointer w
  | i32 => .i32
  | i64 => .i64

end Param

/-- The parameters and the result of a function. -/
structure Shape where
  params : List Param
  result : Option Param
  deriving DecidableEq, Repr

/-- The register types of the parameters and results of a function. -/
structure Signature where
  params : List Register
  returns : List Register
  deriving DecidableEq, Repr

namespace Shape

/-- `getiter(value) -> iterator` -/
def getiter : Shape := ⟨[.ptr], some .ptr⟩

/-- `iternext(iterator, out) -> status` -/
def iternext : Shape := ⟨[.ptr, .ptr], some .i32⟩

/-- `release(iterator)` -/
def release : Shape := ⟨[.ptr], none⟩

/-- `new(arguments) -> value` -/
def construct : Shape := ⟨[.ptr], some .ptr⟩

/-- `for_each(iterable, sink, context) -> status` -/
def forEach : Shape := ⟨[.ptr, .ptr, .ptr], some .i32⟩

/-- `alloc(size, align, kind) -> block` -/
def alloc : Shape := ⟨[.i64, .i64, .i32], some .ptr⟩

/-- `free(block, size, align, kind)` -/
def free : Shape := ⟨[.ptr, .i64, .i64, .i32], none⟩

/-- The shape on a target whose pointers have `w` bytes. -/
def signature (w : Nat) (shape : Shape) : Signature :=
  ⟨shape.params.map (Param.register w), (shape.result.map (Param.register w)).toList⟩

end Shape

/-- A built-in symbol. -/
inductive Intrinsic
  | alloc
  | free
  | arrayGetiter
  | arrayNext
  | arrayRelease
  | rangeNext
  | rangeRelease
  | generatorResume
  deriving DecidableEq, Repr

namespace Intrinsic

/-- Every built-in symbol. -/
def all : List Intrinsic :=
  [alloc, free, arrayGetiter, arrayNext, arrayRelease, rangeNext, rangeRelease, generatorResume]

/-- The name a unit links the symbol by. -/
def name : Intrinsic → String
  | alloc => "shrew_alloc"
  | free => "shrew_free"
  | arrayGetiter => "shrew_array_getiter"
  | arrayNext => "shrew_array_iter_next"
  | arrayRelease => "shrew_array_iter_release"
  | rangeNext => "shrew_range_next"
  | rangeRelease => "shrew_range_release"
  | generatorResume => "shrew_generator_resume"

/-- The shape of the symbol. -/
def shape : Intrinsic → Shape
  | alloc => .alloc
  | free => .free
  | arrayGetiter => .getiter
  | arrayNext | rangeNext | generatorResume => .iternext
  | arrayRelease | rangeRelease => .release

/-- The memory primitives are imported by every unit; the other symbols are imported
when a kind names them. -/
def isEager : Intrinsic → Bool
  | alloc | free => true
  | _ => false

/-- The names tell the built-in symbols apart. -/
theorem name_injective {a b : Intrinsic} (h : a.name = b.name) : a = b := by
  revert h; cases a <;> cases b <;> decide

/-- Every built-in symbol is listed. -/
theorem mem_all (a : Intrinsic) : a ∈ all := by cases a <;> decide

end Intrinsic

end PullIter
