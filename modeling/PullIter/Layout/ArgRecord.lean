import PullIter.Layout.Basic
import PullIter.Bytes

/-!
# Argument records

The host hands arguments to a constructor in one record.  They are stored into an image of
the record as its layout says, and the image is then put into whole words, the last of which is
filled up with zeros.

## Main definitions

* `Arg` — a typed argument.
* `Arg.check` — whether arguments fit into the fields of a record.
* `Arg.image` — the record byte by byte.
* `Arg.record` — the bytes of the words that hold it.
* `Arg.pack` — the bytes, or the reason why the arguments do not fit.
-/

namespace PullIter

/-- A typed constructor argument. -/
inductive Arg
  | ptr (address : UInt64)
  | i64 (n : Int64)
  | i32 (n : Int32)
  | bool (b : Bool)
  /-- A floating-point number, by its bits. -/
  | f64 (bits : UInt64)
  deriving DecidableEq, Repr

namespace Arg

/-- The kind of scalar that an argument is. -/
def kind : Arg → Scalar
  | ptr _ => .ptr
  | i64 _ => .i64
  | i32 _ => .i32
  | bool _ => .bool
  | f64 _ => .f64

/-- The bytes of an argument in memory.  A pointer always has eight. -/
def bytes : Arg → List UInt8
  | ptr address => toBytes 8 address.toNat
  | i64 n => toBytes 8 n.toUInt64.toNat
  | i32 n => toBytes 4 n.toUInt32.toNat
  | bool b => [if b then 1 else 0]
  | f64 bits => toBytes 8 bits.toNat

/-- Whether an argument can be stored in a field of a size.  A truth value goes into
the first byte of its field, and every other argument fills its field. -/
def fits (arg : Arg) (size : Nat) : Bool :=
  match arg with
  | bool _ => 0 < size
  | _ => arg.bytes.length = size

/-- Whether arguments can be stored in fields of a record of `size` bytes.  The first argument
whose kind is not that of its field is an error. -/
def check (size : Nat) : List Field → List Arg → Except Fault (Except Error Unit)
  | field :: fields, arg :: args =>
    -- an argument before a wrong one may fault first
    if field.layout.scalarKind? = some arg.kind then
      if size < field.offset + field.layout.size then
        .error (.outOfBounds field.offset field.layout.size)
      else if arg.fits field.layout.size then check size fields args
      else .error (.argumentWidth field.layout.size arg.bytes.length)
    else
      .ok (.error (.typeMismatch "constructor argument"
        ((field.layout.scalarKind?.map Scalar.name).getD "aggregate") arg.kind.name))
  | _, _ => .ok (.ok ())

/-- What arguments store into fields. -/
def writes (fields : List Field) (args : List Arg) : List Write :=
  fields.zipWith (fun field arg => ⟨field.offset, arg.bytes⟩) args

/-- The record byte by byte: zeros, and every argument where its field is. -/
def image (layout : Layout) (args : List Arg) : List UInt8 :=
  applyWrites (List.replicate layout.size 0) (writes layout.fields args)

/-- The bytes of the words that hold the arguments. -/
def record (layout : Layout) (args : List Arg) : List UInt8 :=
  ofWords (toWords (image layout args))

/-- The number of bytes of the words that hold `size` bytes. -/
def paddedSize (size : Nat) : Nat := 8 * max 1 ((size + 7) / 8)

theorem le_paddedSize (size : Nat) : size ≤ paddedSize size := by
  unfold paddedSize
  omega

@[simp] theorem length_image (layout : Layout) (args : List Arg) :
    (image layout args).length = layout.size := by
  simp [image]

@[simp] theorem length_record (layout : Layout) (args : List Arg) :
    (record layout args).length = paddedSize layout.size := by
  simp [record, paddedSize, wordCount]

/-- The bytes of the argument record. -/
def pack (layout : Layout) (args : List Arg) : Except Fault (Except Error (List UInt8)) :=
  if layout.fields.length = args.length then
    (check layout.size layout.fields args).map fun checked =>
      checked.map fun _ => record layout args
  else
    .ok (.error (.internal "argument record does not match layout"
      (some (toString layout.fields.length ++ " fields, " ++ toString args.length ++ " arguments"))))

end Arg

end PullIter
