import PullIter.Scalar
import PullIter.Error
import PullIter.Fault

/-!
# Layouts

A layout says where the scalars of a value lie in memory.  Fields are placed in
the order of their declaration, each at the next multiple of its own alignment;
the alignment of a record is the largest of its fields, and its size is rounded
up to it.

## Main definitions

* `Layout`, `Field` — a scalar, or a record of placed fields.
* `alignTo` — the next multiple of an alignment.
* `Layout.record` — lay out named fields.
* `Layout.record?` — the same on a machine, where an alignment of zero and a size
  beyond 32 bits are faults.

## Main results

* `record?_eq_ok_iff` — laying out a record on a machine fails on those two counts
  only, and otherwise gives the record.
-/

namespace PullIter

/-- A named part at an offset. -/
structure Placed (α : Type) where
  name : String
  offset : Nat
  layout : α
  deriving Repr

/-- The memory layout of a value.  Size and alignment are in bytes. -/
inductive Layout
  /-- One scalar. -/
  | scalar (size align : Nat) (kind : Scalar)
  /-- Placed fields, in the order of their declaration. -/
  | struct (size align : Nat) (fields : List (Placed Layout))
  deriving Repr

/-- A field of a record. -/
abbrev Field := Placed Layout

/-- The next multiple of `align`, from `offset` on. -/
def alignTo (offset align : Nat) : Nat := (offset + align - 1) / align * align

/-- An offset that is a multiple of the alignment stays. -/
theorem alignTo_of_dvd {offset align : Nat} (h : align ∣ offset) : alignTo offset align = offset := by
  obtain ⟨k, rfl⟩ := h
  rcases Nat.eq_zero_or_pos align with rfl | hpos
  · simp [alignTo]
  · have hdiv : (align * k + align - 1) / align = k := by
      rw [Nat.add_sub_assoc hpos, Nat.mul_add_div hpos, Nat.div_eq_of_lt (by omega), Nat.add_zero]
    rw [alignTo, hdiv, Nat.mul_comm]

/-- Rounding up gives a multiple. -/
theorem dvd_alignTo (offset align : Nat) : align ∣ alignTo offset align :=
  Nat.dvd_mul_left ..

/-- Rounding up to a positive alignment never goes back. -/
theorem le_alignTo {offset align : Nat} (h : 0 < align) : offset ≤ alignTo offset align := by
  have hmod := Nat.div_add_mod (offset + align - 1) align
  have hlt := Nat.mod_lt (offset + align - 1) h
  rw [alignTo, Nat.mul_comm]
  omega

namespace Layout

/-- The size in bytes. -/
def size : Layout → Nat
  | scalar size _ _ => size
  | struct size _ _ => size

/-- The alignment in bytes. -/
def align : Layout → Nat
  | scalar _ align _ => align
  | struct _ align _ => align

/-- The fields of a record; a scalar has none. -/
def fields : Layout → List Field
  | scalar .. => []
  | struct _ _ fields => fields

/-- The kind of a scalar; a record has none. -/
def scalarKind? : Layout → Option Scalar
  | scalar _ _ kind => some kind
  | struct .. => none

@[simp] theorem size_scalar (s a : Nat) (k : Scalar) : (scalar s a k).size = s := rfl

@[simp] theorem size_struct (s a : Nat) (fs : List Field) : (struct s a fs).size = s := rfl

@[simp] theorem align_scalar (s a : Nat) (k : Scalar) : (scalar s a k).align = a := rfl

@[simp] theorem align_struct (s a : Nat) (fs : List Field) : (struct s a fs).align = a := rfl

@[simp] theorem fields_scalar (s a : Nat) (k : Scalar) : (scalar s a k).fields = [] := rfl

@[simp] theorem fields_struct (s a : Nat) (fs : List Field) : (struct s a fs).fields = fs := rfl

/-- The field at an index. -/
def field (layout : Layout) (index : Nat) : Except Error Field :=
  match layout.fields[index]? with
  | some field => .ok field
  | none => .error (.internal "field index out of range" (some (toString index)))

/-- The first field with a name. -/
def fieldNamed? (layout : Layout) (name : String) : Option Field :=
  layout.fields.find? fun field => field.name == name

/-! ### Laying out a record -/

/-- A scalar on a target whose pointers have `w` bytes is aligned to its size. -/
def ofScalar (w : Nat) (kind : Scalar) : Layout := scalar (kind.size w) (kind.size w) kind

/-- Place named parts one behind the other, from `offset` on. -/
def place (offset : Nat) : List (String × Layout) → List Field
  | [] => []
  | (name, layout) :: rest =>
    ⟨name, alignTo offset layout.align, layout⟩ ::
      place (alignTo offset layout.align + layout.size) rest

/-- The first offset behind parts that are placed from `offset` on. -/
def placedEnd (offset : Nat) : List (String × Layout) → Nat
  | [] => offset
  | (_, layout) :: rest => placedEnd (alignTo offset layout.align + layout.size) rest

/-- The largest alignment of some parts, and at least one. -/
def maxAlign (parts : List (String × Layout)) : Nat :=
  parts.foldl (fun align part => max align part.2.align) 1

/-- Lay out named parts in the order of their declaration. -/
def record (parts : List (String × Layout)) : Layout :=
  struct (alignTo (placedEnd 0 parts) (maxAlign parts)) (maxAlign parts) (place 0 parts)

@[simp] theorem place_nil (offset : Nat) : place offset [] = [] := rfl

@[simp] theorem place_cons (offset : Nat) (name : String) (layout : Layout)
    (rest : List (String × Layout)) :
    place offset ((name, layout) :: rest) =
      ⟨name, alignTo offset layout.align, layout⟩ ::
        place (alignTo offset layout.align + layout.size) rest := rfl

@[simp] theorem placedEnd_nil (offset : Nat) : placedEnd offset [] = offset := rfl

@[simp] theorem placedEnd_cons (offset : Nat) (name : String) (layout : Layout)
    (rest : List (String × Layout)) :
    placedEnd offset ((name, layout) :: rest) =
      placedEnd (alignTo offset layout.align + layout.size) rest := rfl

@[simp] theorem fields_record (parts : List (String × Layout)) :
    (record parts).fields = place 0 parts := rfl

@[simp] theorem align_record (parts : List (String × Layout)) :
    (record parts).align = maxAlign parts := rfl

@[simp] theorem length_place (offset : Nat) (parts : List (String × Layout)) :
    (place offset parts).length = parts.length := by
  induction parts generalizing offset with
  | nil => rfl
  | cons part rest ih => simp [place, ih]

/-- The parts keep their names and layouts, in their order. -/
theorem map_place (offset : Nat) (parts : List (String × Layout)) :
    (place offset parts).map (fun field => (field.name, field.layout)) = parts := by
  induction parts generalizing offset with
  | nil => rfl
  | cons part rest ih => simp [place, ih]

/-- The largest size and offset of the machine. -/
def maxSize : Nat := UInt32.size - 1

/-- Lay out named parts on a machine.  Rounding up to a multiple of zero is a
fault, and so is a size of more than 32 bits; no offset exceeds the size. -/
def record? (parts : List (String × Layout)) : Except Fault Layout :=
  if parts.any fun part => part.2.align = 0 then .error .zeroAlignment
  else if maxSize < (record parts).size then .error .sizeOverflow
  else .ok (record parts)

/-- **Laying out a record** succeeds exactly if every part has a positive alignment
and the size fits. -/
theorem record?_eq_ok_iff {parts : List (String × Layout)} {layout : Layout} :
    record? parts = .ok layout ↔
      (∀ part ∈ parts, 0 < part.2.align) ∧ (record parts).size ≤ maxSize ∧ layout = record parts := by
  have hany : (parts.any fun part => part.2.align = 0) = true ↔
      ¬ ∀ part ∈ parts, 0 < part.2.align := by
    simp [Nat.pos_iff_ne_zero]
  unfold record?
  by_cases halign : ∀ part ∈ parts, 0 < part.2.align
  · rw [if_neg (by rw [hany]; exact not_not_intro halign)]
    by_cases hsize : maxSize < (record parts).size
    · rw [if_pos hsize]
      simp only [reduceCtorEq, false_iff, not_and]
      exact fun _ h => absurd hsize (Nat.not_lt.2 h)
    · rw [if_neg hsize]
      simp only [Except.ok.injEq]
      exact ⟨fun h => ⟨halign, by omega, h.symm⟩, fun h => h.2.2.symm⟩
  · rw [if_pos (hany.2 halign)]
    simp only [reduceCtorEq, false_iff, not_and]
    exact fun h => absurd h halign

end Layout

end PullIter
