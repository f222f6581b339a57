import Mathlib.Data.List.Fold
import PullIter.Proofs.Layout.Remembered

/-!
# Where the scalars of a layout lie

A layout is a tree, and its scalars are its leaves.  The offset of a leaf is the sum of the offsets
on the path to it.  On a target whose pointers take a power of two of bytes all alignments are
powers of two, so that the larger of two is a multiple of the smaller one: what is aligned within a
record stays aligned wherever the record is put.

## Main definitions

* `Leaf`, `Layout.leaves` — the scalars of a layout, in the order of their declaration.
* `Layout.Places` — a record keeps its parts in order, aligned, apart and within itself.
* `Layout.Regular` — the scalars at any depth are aligned, apart and within the layout.

## Main results

* `Layout.places_record` — the record of parts places them.
* `Layout.regular_record` — the record of regular parts is regular.
* `LayoutSubject.regular_layout` — so is each layout that can be asked for.
* `LayoutCache.layouts_wellFormed` — **layouts are well formed** at every depth.
-/

namespace PullIter

/-! ### Leaves -/

/-- A scalar of a layout. -/
structure Leaf where
  offset : Nat
  size : Nat
  align : Nat
  kind : Scalar
  deriving DecidableEq, Repr

namespace Leaf

/-- The first offset behind the scalar. -/
def stop (leaf : Leaf) : Nat := leaf.offset + leaf.size

/-- The same scalar seen from `n` bytes earlier. -/
def shift (n : Nat) (leaf : Leaf) : Leaf := { leaf with offset := n + leaf.offset }

@[simp] theorem offset_shift (n : Nat) (leaf : Leaf) : (leaf.shift n).offset = n + leaf.offset :=
  rfl

@[simp] theorem size_shift (n : Nat) (leaf : Leaf) : (leaf.shift n).size = leaf.size := rfl

@[simp] theorem align_shift (n : Nat) (leaf : Leaf) : (leaf.shift n).align = leaf.align := rfl

@[simp] theorem kind_shift (n : Nat) (leaf : Leaf) : (leaf.shift n).kind = leaf.kind := rfl

@[simp] theorem stop_shift (n : Nat) (leaf : Leaf) : (leaf.shift n).stop = n + leaf.stop :=
  Nat.add_assoc ..

end Leaf

namespace Layout

mutual

/-- The scalars of a layout, in the order of their declaration. -/
def leaves : Layout → List Leaf
  | scalar size align kind => [⟨0, size, align, kind⟩]
  | struct _ _ fields => fieldLeaves fields

/-- The scalars of some fields. -/
def fieldLeaves : List (Placed Layout) → List Leaf
  | [] => []
  | ⟨_, offset, layout⟩ :: rest => (leaves layout).map (Leaf.shift offset) ++ fieldLeaves rest

end

@[simp] theorem leaves_scalar (size align : Nat) (kind : Scalar) :
    (scalar size align kind).leaves = [⟨0, size, align, kind⟩] := by
  rw [leaves]

@[simp] theorem leaves_ofScalar (w : Nat) (kind : Scalar) :
    (ofScalar w kind).leaves = [⟨0, kind.size w, kind.size w, kind⟩] :=
  leaves_scalar ..

@[simp] theorem leaves_struct (size align : Nat) (fields : List Field) :
    (struct size align fields).leaves = fieldLeaves fields := by
  rw [leaves]

theorem fieldLeaves_eq_flatMap (fields : List Field) :
    fieldLeaves fields =
      fields.flatMap fun field => field.layout.leaves.map (Leaf.shift field.offset) := by
  induction fields with
  | nil => rw [fieldLeaves, List.flatMap_nil]
  | cons field rest ih => rw [fieldLeaves, ih, List.flatMap_cons]

theorem mem_fieldLeaves {fields : List Field} {leaf : Leaf} :
    leaf ∈ fieldLeaves fields ↔
      ∃ field ∈ fields, ∃ inner ∈ field.layout.leaves, inner.shift field.offset = leaf := by
  simp only [fieldLeaves_eq_flatMap, List.mem_flatMap, List.mem_map]

@[simp] theorem leaves_record (parts : List (String × Layout)) :
    (record parts).leaves = fieldLeaves (place 0 parts) :=
  leaves_struct ..

/-- What does not depend on where a scalar is, the leaves of a record take from its parts. -/
theorem map_leaves_record {α : Type} {f : Leaf → α} (hf : ∀ n leaf, f (leaf.shift n) = f leaf)
    (parts : List (String × Layout)) :
    (record parts).leaves.map f = parts.flatMap fun part => part.2.leaves.map f := by
  have hshift : ∀ n, f ∘ Leaf.shift n = f := fun n => funext (hf n)
  have hparts := map_place 0 parts
  rw [leaves_record, fieldLeaves_eq_flatMap, List.map_flatMap]
  simp only [List.map_map, hshift]
  generalize place 0 parts = fields at hparts ⊢
  rw [← hparts, List.flatMap_map]

/-! ### Records -/

/-- A record keeps its parts in their order, each at a multiple of its alignment, apart from the
others and within the record, which ends at a multiple of its own alignment. -/
structure Places (parts : List (String × Layout)) (layout : Layout) : Prop where
  parts : layout.fields.map (fun field => (field.name, field.layout)) = parts
  aligned : ∀ field ∈ layout.fields, field.layout.align ∣ field.offset
  apart : layout.fields.Pairwise fun a b => a.offset + a.layout.size ≤ b.offset
  within : ∀ field ∈ layout.fields, field.offset + field.layout.size ≤ layout.size
  padded : layout.align ∣ layout.size

theorem align_dvd_offset (offset : Nat) (parts : List (String × Layout)) :
    ∀ field ∈ place offset parts, field.layout.align ∣ field.offset := by
  induction parts generalizing offset with
  | nil => intro field hf; cases hf
  | cons part rest ih =>
    intro field hf
    rcases List.mem_cons.mp hf with rfl | hf
    · exact dvd_alignTo ..
    · exact ih _ field hf

theorem Apart.pairwise {fields : List Field} {start : Nat} (h : Apart start fields) :
    fields.Pairwise fun a b => a.offset + a.layout.size ≤ b.offset := by
  induction fields generalizing start with
  | nil => exact .nil
  | cons field rest ih => exact .cons h.2.le_offset (ih h.2)

/-- **The record of parts** places them. -/
theorem places_record {parts : List (String × Layout)} (h : ∀ part ∈ parts, 0 < part.2.align) :
    Places parts (record parts) where
  parts := map_place 0 parts
  aligned := align_dvd_offset 0 parts
  apart := (apart_place h 0).pairwise
  within field hf := Nat.le_trans (stop_le_placedEnd h 0 field hf) (le_alignTo (maxAlign_pos parts))
  padded := dvd_alignTo ..

/-! ### The largest alignment -/

/-- The largest of some alignments, and one if there are none. -/
def largest (aligns : List Nat) : Nat := aligns.foldr max 1

theorem maxAlign_eq_largest (parts : List (String × Layout)) :
    maxAlign parts = largest (parts.map fun part => part.2.align) := by
  rw [maxAlign, largest, ← List.foldl_eq_foldr, List.foldl_map]

theorem le_largest {aligns : List Nat} {align : Nat} (h : align ∈ aligns) :
    align ≤ largest aligns := by
  induction aligns with
  | nil => cases h
  | cons first rest ih =>
    rw [largest, List.foldr_cons]
    rcases List.mem_cons.mp h with rfl | h
    · exact Nat.le_max_left ..
    · exact Nat.le_trans (ih h) (Nat.le_max_right ..)

theorem one_le_largest (aligns : List Nat) : 1 ≤ largest aligns := by
  induction aligns with
  | nil => exact Nat.le_refl 1
  | cons first rest ih => exact Nat.le_trans ih (Nat.le_max_right ..)

theorem largest_append (aligns others : List Nat) :
    largest (aligns ++ others) = max (largest aligns) (largest others) := by
  induction aligns with
  | nil => exact (Nat.max_eq_right (one_le_largest others)).symm
  | cons first rest ih =>
    rw [largest, List.cons_append, List.foldr_cons, ← largest, ih, ← Nat.max_assoc]
    rfl

/-- The largest of all is the largest of what is largest in each group. -/
theorem largest_flatMap {α : Type} (groups : List α) (aligns : α → List Nat) :
    largest (groups.flatMap aligns) = largest (groups.map fun group => largest (aligns group)) := by
  induction groups with
  | nil => rfl
  | cons group rest ih => rw [List.flatMap_cons, largest_append, ih, List.map_cons]; rfl

theorem isPowerOfTwo_largest {aligns : List Nat} (h : ∀ align ∈ aligns, align.isPowerOfTwo) :
    (largest aligns).isPowerOfTwo := by
  induction aligns with
  | nil => exact Nat.isPowerOfTwo_one
  | cons first rest ih =>
    rw [List.forall_mem_cons] at h
    rw [largest, List.foldr_cons]
    rcases Nat.le_total first (largest rest) with hle | hle
    · rw [← largest, Nat.max_eq_right hle]
      exact ih h.2
    · rw [← largest, Nat.max_eq_left hle]
      exact h.1

/-- Of two powers of two the larger one is a multiple of the smaller one. -/
theorem dvd_of_isPowerOfTwo {a b : Nat} (ha : a.isPowerOfTwo) (hb : b.isPowerOfTwo) (h : a ≤ b) :
    a ∣ b := by
  obtain ⟨k, rfl⟩ := ha
  obtain ⟨l, rfl⟩ := hb
  exact Nat.pow_dvd_pow 2 ((Nat.pow_le_pow_iff_right (by decide)).mp h)

/-! ### Regular layouts -/

/-- A layout whose scalars, at any depth, are aligned to their own size, apart from each other in
the order of their declaration, and within the layout.  Its alignment is the largest of theirs. -/
structure Regular (w : Nat) (layout : Layout) : Prop where
  natural : ∀ leaf ∈ layout.leaves, leaf.size = leaf.kind.size w ∧ leaf.align = leaf.size
  align_eq : layout.align = largest (layout.leaves.map Leaf.align)
  power : layout.align.isPowerOfTwo
  padded : layout.align ∣ layout.size
  aligned : ∀ leaf ∈ layout.leaves, leaf.size ∣ leaf.offset
  apart : layout.leaves.Pairwise fun a b => a.stop ≤ b.offset
  within : ∀ leaf ∈ layout.leaves, leaf.stop ≤ layout.size

section Width

variable {w : Nat}

theorem isPowerOfTwo_size (hw : w.isPowerOfTwo) (kind : Scalar) : (kind.size w).isPowerOfTwo := by
  cases kind with
  | bool => exact ⟨0, rfl⟩
  | i32 => exact ⟨2, rfl⟩
  | i64 | f64 => exact ⟨3, rfl⟩
  | ptr => exact hw

/-- The alignment of a scalar divides that of its layout. -/
theorem Regular.size_dvd_align (hw : w.isPowerOfTwo) {layout : Layout} (h : layout.Regular w)
    {leaf : Leaf} (hl : leaf ∈ layout.leaves) : leaf.size ∣ layout.align := by
  obtain ⟨hsize, halign⟩ := h.natural leaf hl
  refine dvd_of_isPowerOfTwo (hsize ▸ isPowerOfTwo_size hw leaf.kind) h.power ?_
  rw [h.align_eq, ← halign]
  exact le_largest (List.mem_map_of_mem hl)

theorem regular_ofScalar (hw : w.isPowerOfTwo) (kind : Scalar) : (ofScalar w kind).Regular w := by
  have hleaf : ∀ leaf ∈ (ofScalar w kind).leaves, leaf = ⟨0, kind.size w, kind.size w, kind⟩ :=
    fun leaf hl => List.mem_singleton.mp (leaves_ofScalar w kind ▸ hl)
  constructor
  case natural =>
    intro leaf hl
    rw [hleaf leaf hl]
    exact ⟨rfl, rfl⟩
  case align_eq =>
    have hpos := Nat.pos_of_isPowerOfTwo (isPowerOfTwo_size hw kind)
    rw [leaves_ofScalar]
    exact (Nat.max_eq_left hpos).symm
  case power => exact isPowerOfTwo_size hw kind
  case padded => exact Nat.dvd_refl _
  case aligned =>
    intro leaf hl
    rw [hleaf leaf hl]
    exact Nat.dvd_zero _
  case apart =>
    rw [leaves_ofScalar]
    exact List.pairwise_singleton ..
  case within =>
    intro leaf hl
    rw [hleaf leaf hl]
    exact Nat.le_of_eq (Nat.zero_add _)

/-- **The record of regular parts** is regular. -/
theorem regular_record (hw : w.isPowerOfTwo) {parts : List (String × Layout)}
    (h : ∀ part ∈ parts, part.2.Regular w) : (record parts).Regular w := by
  have hpos : ∀ part ∈ parts, 0 < part.2.align :=
    fun part hp => Nat.pos_of_isPowerOfTwo (h part hp).power
  have hplaces := places_record hpos
  have hregular := forall_mem_place h 0
  have hleaf : ∀ {leaf}, leaf ∈ (record parts).leaves → leaf ∈ fieldLeaves (place 0 parts) :=
    fun hl => by rwa [leaves_record] at hl
  constructor
  case natural =>
    intro leaf hl
    obtain ⟨field, hf, inner, hi, rfl⟩ := mem_fieldLeaves.mp (hleaf hl)
    exact (hregular field hf).natural inner hi
  case align_eq =>
    rw [map_leaves_record fun _ _ => rfl, largest_flatMap, align_record, maxAlign_eq_largest]
    exact congrArg largest (List.map_congr_left fun part hp => (h part hp).align_eq)
  case power =>
    rw [align_record, maxAlign_eq_largest]
    apply isPowerOfTwo_largest
    intro align ha
    obtain ⟨part, hp, rfl⟩ := List.mem_map.mp ha
    exact (h part hp).power
  case padded => exact hplaces.padded
  case aligned =>
    intro leaf hl
    obtain ⟨field, hf, inner, hi, rfl⟩ := mem_fieldLeaves.mp (hleaf hl)
    -- a leaf is aligned within its field, and the field is aligned as the leaf needs
    have hfield : inner.size ∣ field.offset :=
      Nat.dvd_trans ((hregular field hf).size_dvd_align hw hi) (hplaces.aligned field hf)
    exact Nat.dvd_add hfield ((hregular field hf).aligned inner hi)
  case apart =>
    rw [leaves_record, fieldLeaves_eq_flatMap, List.pairwise_flatMap]
    -- leaves of one field are apart in the field, leaves of two fields because the fields are
    refine ⟨fun field hf => ?_, hplaces.apart.imp_of_mem fun {a b} ha hb hab => ?_⟩
    · rw [List.pairwise_map]
      refine (hregular field hf).apart.imp fun {a b} hab => ?_
      rw [Leaf.stop_shift, Leaf.offset_shift]
      omega
    · intro x hx y hy
      obtain ⟨inner, hi, rfl⟩ := List.mem_map.mp hx
      obtain ⟨other, -, rfl⟩ := List.mem_map.mp hy
      have hwithin := (hregular a ha).within inner hi
      rw [Leaf.stop_shift, Leaf.offset_shift]
      omega
  case within =>
    intro leaf hl
    obtain ⟨field, hf, inner, hi, rfl⟩ := mem_fieldLeaves.mp (hleaf hl)
    have hinner := (hregular field hf).within inner hi
    have hfield := hplaces.within field hf
    rw [Leaf.stop_shift]
    omega

mutual

/-- The layout of a value type is regular. -/
theorem regular_ofType (hw : w.isPowerOfTwo) : ∀ type : ValueType, (ofType w type).Regular w
  | .scalar kind => by rw [ofType]; exact regular_ofScalar hw kind
  | .tuple fields => by rw [ofType]; exact regular_record hw (regular_tupleParts hw fields 0)

theorem regular_tupleParts (hw : w.isPowerOfTwo) : ∀ (types : List ValueType) (index : Nat),
    ∀ part ∈ tupleParts w index types, part.2.Regular w
  | [], index, part, hp => by simp [tupleParts] at hp
  | type :: rest, index, part, hp => by
    rw [tupleParts] at hp
    rcases List.mem_cons.mp hp with rfl | hp
    · exact regular_ofType hw type
    · exact regular_tupleParts hw rest (index + 1) part hp

end

end Width

end Layout

/-! ### The scalars that were declared -/

namespace ValueType

mutual

/-- The scalars of a value type, in the order of their declaration. -/
def scalars : ValueType → List Scalar
  | scalar kind => [kind]
  | tuple fields => scalarsList fields

/-- The scalars of some value types. -/
def scalarsList : List ValueType → List Scalar
  | [] => []
  | field :: rest => scalars field ++ scalarsList rest

end

end ValueType

namespace Layout

mutual

/-- The scalars of a value type are those of its layout. -/
theorem kinds_ofType (w : Nat) : ∀ type : ValueType,
    (ofType w type).leaves.map Leaf.kind = type.scalars
  | .scalar kind => by rw [ofType, ofScalar, leaves_scalar, ValueType.scalars]; rfl
  | .tuple fields => by
    rw [ofType, map_leaves_record fun _ _ => rfl, kinds_tupleParts w fields 0, ValueType.scalars]

theorem kinds_tupleParts (w : Nat) : ∀ (types : List ValueType) (index : Nat),
    ((tupleParts w index types).flatMap fun part => part.2.leaves.map Leaf.kind) =
      ValueType.scalarsList types
  | [], index => by rw [tupleParts, ValueType.scalarsList, List.flatMap_nil]
  | type :: rest, index => by
    rw [tupleParts, List.flatMap_cons, kinds_ofType w type, kinds_tupleParts w rest (index + 1),
      ValueType.scalarsList]

end

end Layout

namespace LayoutSubject

/-- The scalars that a layout is asked for, in the order of their declaration. -/
def declared : LayoutSubject → List Scalar
  | value type => type.scalars
  | scalars fields => fields.map Prod.snd

/-- **Each layout that can be asked for** is regular. -/
theorem regular_layout {w : Nat} (hw : w.isPowerOfTwo) (subject : LayoutSubject) :
    (subject.layout w).Regular w := by
  cases subject with
  | value type => exact Layout.regular_ofType hw type
  | scalars fields =>
    refine Layout.regular_record hw fun part hp => ?_
    obtain ⟨field, -, rfl⟩ := List.mem_map.mp hp
    exact Layout.regular_ofScalar hw field.2

theorem kinds_layout (w : Nat) (subject : LayoutSubject) :
    (subject.layout w).leaves.map Leaf.kind = subject.declared := by
  cases subject with
  | value type => exact Layout.kinds_ofType w type
  | scalars fields =>
    rw [layout, Layout.map_leaves_record fun _ _ => rfl, Layout.scalarParts, List.flatMap_map]
    simp only [Layout.leaves_ofScalar, List.map_singleton]
    exact List.map_eq_flatMap.symm

end LayoutSubject

namespace LayoutCache

/-- **Layouts are well formed** at every depth.  Named parts with positive alignments are laid out
in a record that places them, as long as it fits the machine.  If pointers take a power of two of
bytes then a layout that is asked for is given if it fits, whatever was asked before, and the
scalars at any depth of it are those that were declared: in their order, aligned to their size,
apart from each other and within the layout. -/
theorem layouts_wellFormed {w : Nat} (hw : w.isPowerOfTwo) (hfit : w ≤ Layout.maxSize) :
    (∀ parts : List (String × Layout), (∀ part ∈ parts, 0 < part.2.align) →
      (Layout.record parts).size ≤ Layout.maxSize →
      ∃ layout, Layout.record? parts = .ok layout ∧ layout.Places parts) ∧
    ∀ cache : LayoutCache, cache.Reached w →
      ∀ (query : LayoutQuery) (subject : LayoutSubject), query.subject = some subject →
        (∀ layout, (∃ after, cache.answer query = .ok (some layout, after)) ↔
          layout = subject.layout w ∧ layout.size ≤ Layout.maxSize) ∧
        (subject.layout w).Regular w ∧
        (subject.layout w).leaves.map Leaf.kind = subject.declared := by
  constructor
  · intro parts hpos hsize
    exact ⟨_, Layout.record?_eq_ok_iff.mpr ⟨hpos, hsize, rfl⟩, Layout.places_record hpos⟩
  · intro cache hreached query subject hs
    exact ⟨fun layout => hreached.answer_eq_ok_iff (Nat.pos_of_isPowerOfTwo hw) hfit hs,
      subject.regular_layout hw, subject.kinds_layout w⟩

/-- A record of two scalars; and, after other queries, a nested tuple on a target with pointers of
eight bytes. -/
theorem layouts_wellFormed_nested :
    let parts := [("flag", Layout.ofScalar 8 .bool), ("count", Layout.ofScalar 8 .i64)]
    let type : ValueType := .tuple [.scalar .bool, .tuple [.scalar .ptr, .scalar .i32], .tuple []]
    let asked : List LayoutQuery := [.zipState 2, .value (.tuple [.scalar .ptr, .scalar .i32])]
    (∃ layout, Layout.record? parts = .ok layout ∧ layout.Places parts) ∧
    ∃ given cache after layout, (fresh 8).answers asked = .ok (given, cache) ∧
      cache.answer (.value type) = .ok (some layout, after) ∧ layout.Regular 8 ∧
      layout.leaves = [⟨0, 1, 1, .bool⟩, ⟨8, 8, 8, .ptr⟩, ⟨16, 4, 4, .i32⟩] := by
  intro parts type asked
  obtain ⟨hrecord, hcache⟩ := layouts_wellFormed ⟨3, rfl⟩ (show 8 ≤ Layout.maxSize by decide)
  obtain ⟨given, cache, hasked⟩ : ∃ given cache, (fresh 8).answers asked = .ok (given, cache) :=
    ⟨_, _, rfl⟩
  obtain ⟨hgiven, hregular, -⟩ :=
    hcache cache ⟨asked, given, hasked⟩ (.value type) (.value type) rfl
  obtain ⟨after, hafter⟩ := (hgiven _).mpr ⟨rfl, by decide⟩
  exact ⟨hrecord parts (by decide) (by decide), given, cache, after, _, hasked, hafter, hregular,
    rfl⟩

end LayoutCache

end PullIter
