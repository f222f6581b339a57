import PullIter.Layout.Basic
import PullIter.ValueType

/-!
# The layouts in use

The layouts of value types, of the state records of combinators and of the
argument records of their constructors, each for a target whose pointers have `w`
bytes.

| record                | fields                                   |
|-----------------------|------------------------------------------|
| state of an enumerate | `count : i64`, `source : ptr`            |
| state of a zip        | `source_0 : ptr`, `source_1 : ptr`, ..   |
| arguments, enumerate  | `source`, and `start` if there is one    |
| arguments, zip        | `source_0`, `source_1`, ..               |

## Main definitions

* `Layout.ofType w` — the layout of a value type.
* `Layout.enumerateState`, `Layout.zipState` — state records.
* `Layout.enumerateArgs`, `Layout.zipArgs` — argument records.
-/

namespace PullIter.Layout

mutual

/-- The layout of a value type.  The fields of a tuple are named by their index. -/
def ofType (w : Nat) : ValueType → Layout
  | .scalar kind => ofScalar w kind
  | .tuple fields => record (tupleParts w 0 fields)

/-- The parts of a tuple, named from `index` on. -/
def tupleParts (w index : Nat) : List ValueType → List (String × Layout)
  | [] => []
  | field :: rest => (toString index, ofType w field) :: tupleParts w (index + 1) rest

end

@[simp] theorem length_tupleParts (w : Nat) (types : List ValueType) (index : Nat) :
    (tupleParts w index types).length = types.length := by
  induction types generalizing index with
  | nil => rfl
  | cons type rest ih => rw [tupleParts, List.length_cons, ih, List.length_cons]

/-- The name of the source at an index of a zip. -/
def sourceName (index : Nat) : String := "source_" ++ toString index

/-- Scalars as the sources of a zip, named from `index` on. -/
def sourceParts (w index : Nat) : List Scalar → List (String × Layout)
  | [] => []
  | kind :: rest => (sourceName index, ofScalar w kind) :: sourceParts w (index + 1) rest

/-- The parts of the state of an enumerate: the running count and the iterator
whose values are counted. -/
def enumerateStateParts (w : Nat) : List (String × Layout) :=
  [("count", ofScalar w .i64), ("source", ofScalar w .ptr)]

/-- The parts of the state of a zip: one iterator per source. -/
def zipStateParts (w sources : Nat) : List (String × Layout) :=
  sourceParts w 0 (List.replicate sources .ptr)

/-- The parts of the arguments of an enumerate.  Arguments behind the start have
no place. -/
def enumerateArgParts (w : Nat) (args : List Scalar) : List (String × Layout) :=
  ["source", "start"].zip (args.map (ofScalar w))

/-- The parts of the arguments of a zip. -/
def zipArgParts (w : Nat) (args : List Scalar) : List (String × Layout) := sourceParts w 0 args

/-- The state record of an enumerate. -/
def enumerateState (w : Nat) : Layout := record (enumerateStateParts w)

/-- The state record of a zip. -/
def zipState (w sources : Nat) : Layout := record (zipStateParts w sources)

/-- The argument record of an enumerate. -/
def enumerateArgs (w : Nat) (args : List Scalar) : Layout := record (enumerateArgParts w args)

/-- The argument record of a zip. -/
def zipArgs (w : Nat) (args : List Scalar) : Layout := record (zipArgParts w args)

/-- The index of the running count in the state of an enumerate. -/
def countIndex : Nat := 0

/-- The index of the source in the state of an enumerate. -/
def sourceIndex : Nat := 1

end PullIter.Layout
