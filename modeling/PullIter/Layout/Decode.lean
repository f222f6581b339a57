import PullIter.Layout.Basic
import PullIter.Bytes
import PullIter.Value

/-!
# Decoding values from bytes

A value is read from the start of a buffer, and there is none if the buffer is
shorter than the layout.  A record is read field by field from within its own
bytes.

## Main definitions

* `decodeScalar` — the scalar that some bytes hold.
* `Layout.read` — the value that a buffer holds.
-/

namespace PullIter

/-- The scalar that some bytes hold.  Missing high bytes count as zero.  More than
eight bytes, and no byte for a truth value, are a fault. -/
def decodeScalar (kind : Scalar) (bytes : List UInt8) : Except Fault Value :=
  if 8 < bytes.length then .error (.scalarWidth bytes.length)
  else match kind, bytes with
    | .bool, [] => .error (.scalarWidth 0)
    | .bool, b :: _ => .ok (.bool (b != 0))
    | .i32, bytes => .ok (.i32 (wordOf bytes).toUInt32.toInt32)
    | .i64, bytes => .ok (.i64 (wordOf bytes).toInt64)
    | .f64, bytes => .ok (.f64 (wordOf bytes))
    | .ptr, bytes => .ok (.ptr (wordOf bytes))

namespace Layout

mutual

/-- The value that a buffer holds at its start, or none if the buffer is shorter
than the layout. -/
def read : Layout → List UInt8 → Except Fault (Option Value)
  | scalar size _ kind, bytes =>
    if size ≤ bytes.length then (decodeScalar kind (bytes.take size)).map some else .ok none
  | struct size _ fields, bytes =>
    if size ≤ bytes.length then
      (readFields fields (bytes.take size)).map (Option.map Value.tuple)
    else .ok none

/-- The values of fields, or none as soon as one cannot be read. -/
def readFields : List (Placed Layout) → List UInt8 → Except Fault (Option (List Value))
  | [], _ => .ok (some [])
  | ⟨_, offset, layout⟩ :: rest, bytes =>
    if offset ≤ bytes.length then
      -- a field may reach to the end of the record, and not beyond
      match read layout (bytes.drop offset) with
      | .error fault => .error fault
      | .ok none => .ok none
      | .ok (some value) => (readFields rest bytes).map (Option.map (value :: ·))
    else .ok none

end

end Layout

end PullIter
