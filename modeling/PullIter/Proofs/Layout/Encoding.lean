import Mathlib.Data.List.Forall2
import PullIter.Proofs.Layout.Leaves
import PullIter.Proofs.Layout.Reading

/-!
# Values and the bytes of their scalars

A buffer holds a value if it holds the bytes of each of its scalars where the layout has its leaf.
What lies between the leaves and behind them is free.  Such a buffer is decoded to the value, and
any two buffers that hold the same at the leaves are decoded alike.

## Main definitions

* `Value.HasType` — the values of a type, on a target with pointers of `w` bytes.
* `Value.scalars` — the bytes of the scalars in a value, in their order.
* `Holds` — a buffer holds some scalars at some leaves.
* `Layout.Recovers` — whatever holds the scalars of a value is decoded to the value.

## Main results

* `holds_applyWrites` — scalars that are stored at leaves apart are held there.
* `Layout.recovers_record` — a record recovers a tuple if its parts recover the items.
* `Layout.read_of_leaves` — decoding depends on the leaves only.
* `LayoutCache.decodes` — **decoding is total**, and undoes encoding.
-/

namespace PullIter

/-! ### Typed values and their scalars -/

namespace Value

mutual

/-- A value of a type.  Every bit pattern is a floating-point number, and every address that fits
into `w` bytes is a pointer. -/
inductive HasType (w : Nat) : Value → ValueType → Prop
  | bool (b : Bool) : HasType w (.bool b) (.scalar .bool)
  | i32 (n : Int32) : HasType w (.i32 n) (.scalar .i32)
  | i64 (n : Int64) : HasType w (.i64 n) (.scalar .i64)
  | f64 (bits : UInt64) : HasType w (.f64 bits) (.scalar .f64)
  | ptr {address : UInt64} (h : address.toNat < 256 ^ w) : HasType w (.ptr address) (.scalar .ptr)
  | tuple {items : List Value} {types : List ValueType} (h : HaveTypes w items types) :
    HasType w (.tuple items) (.tuple types)

/-- Values of some types, one by one. -/
inductive HaveTypes (w : Nat) : List Value → List ValueType → Prop
  | nil : HaveTypes w [] []
  | cons {item : Value} {type : ValueType} {items : List Value} {types : List ValueType}
    (head : HasType w item type) (tail : HaveTypes w items types) :
    HaveTypes w (item :: items) (type :: types)

end

mutual

/-- The bytes of each scalar in a value, in the order of their declaration. -/
def scalars (w : Nat) : Value → List (List UInt8)
  | bool b => [[if b then 1 else 0]]
  | i32 n => [toBytes 4 n.toUInt32.toNat]
  | i64 n => [toBytes 8 n.toUInt64.toNat]
  | f64 bits => [toBytes 8 bits.toNat]
  | ptr address => [toBytes w address.toNat]
  | tuple items => scalarsList w items

/-- The same for some values. -/
def scalarsList (w : Nat) : List Value → List (List UInt8)
  | [] => []
  | item :: rest => scalars w item ++ scalarsList w rest

end

end Value

/-! ### Buffers that hold scalars -/

/-- A buffer holds some scalars at some leaves. -/
def Holds (bytes : List UInt8) (leaves : List Leaf) (scalars : List (List UInt8)) : Prop :=
  List.Forall₂ (fun leaf scalar => slice? bytes leaf.offset leaf.size = some scalar) leaves scalars

theorem holds_append {bytes : List UInt8} {leaves more : List Leaf}
    {scalars others : List (List UInt8)} (hlen : leaves.length = scalars.length) :
    Holds bytes (leaves ++ more) (scalars ++ others) ↔
      Holds bytes leaves scalars ∧ Holds bytes more others := by
  induction leaves generalizing scalars with
  | nil =>
    obtain rfl := List.length_eq_zero_iff.mp hlen.symm
    exact ⟨fun h => ⟨.nil, h⟩, fun h => h.2⟩
  | cons leaf leaves ih =>
    cases scalars with
    | nil => cases hlen
    | cons scalar scalars =>
      have htail := @ih scalars (Nat.succ.inj hlen)
      simp only [Holds] at htail
      simp only [Holds, List.cons_append, List.forall₂_cons, htail, and_assoc]

/-- What is held at leaves behind an offset is held in the bytes from there on. -/
theorem Holds.drop {bytes : List UInt8} {leaves : List Leaf} {scalars : List (List UInt8)} {n : Nat}
    (h : Holds bytes (leaves.map (Leaf.shift n)) scalars) :
    Holds (bytes.drop n) leaves scalars := by
  refine (List.forall₂_map_left_iff.mp h).imp fun leaf scalar hs => ?_
  rw [Leaf.offset_shift, Leaf.size_shift] at hs
  obtain ⟨hle, hlen, hbytes⟩ := slice?_eq_some_iff.mp hs
  refine slice?_eq_some_iff.mpr ⟨by rw [List.length_drop]; omega, hlen, fun i hi => ?_⟩
  rw [List.getElem?_drop, ← Nat.add_assoc, hbytes i hi]

/-- Bytes behind the leaves do not matter. -/
theorem Holds.take {bytes : List UInt8} {leaves : List Leaf} {scalars : List (List UInt8)} {n : Nat}
    (h : Holds bytes leaves scalars) (hn : ∀ leaf ∈ leaves, leaf.stop ≤ n) :
    Holds (bytes.take n) leaves scalars := by
  refine ((List.forall₂_and_left _ _).mpr ⟨hn, h⟩).imp fun leaf scalar ⟨hstop, hs⟩ => ?_
  obtain ⟨hle, hlen, hbytes⟩ := slice?_eq_some_iff.mp hs
  rw [Leaf.stop] at hstop
  refine slice?_eq_some_iff.mpr ⟨by rw [List.length_take]; omega, hlen, fun i hi => ?_⟩
  rw [List.getElem?_take_of_lt (by omega), hbytes i hi]

theorem Holds.append {bytes more : List UInt8} {leaves : List Leaf} {scalars : List (List UInt8)}
    (h : Holds bytes leaves scalars) : Holds (bytes ++ more) leaves scalars := by
  refine h.imp fun leaf scalar hs => ?_
  obtain ⟨hle, hlen, hbytes⟩ := slice?_eq_some_iff.mp hs
  refine slice?_eq_some_iff.mpr ⟨by rw [List.length_append]; omega, hlen, fun i hi => ?_⟩
  rw [List.getElem?_append_left (by omega), hbytes i hi]

/-- What storing some scalars at some leaves writes. -/
def leafWrites (leaves : List Leaf) (scalars : List (List UInt8)) : List Write :=
  leaves.zipWith (fun leaf scalar => ⟨leaf.offset, scalar⟩) scalars

theorem exists_of_mem_leafWrites {leaves : List Leaf} {scalars : List (List UInt8)} {write : Write}
    (h : write ∈ leafWrites leaves scalars) : ∃ leaf ∈ leaves, write.offset = leaf.offset := by
  obtain ⟨i, hi⟩ := List.mem_iff_getElem?.mp h
  rw [leafWrites, List.getElem?_zipWith] at hi
  split at hi
  · next leaf _ hleaf _ =>
    cases hi
    exact ⟨leaf, List.mem_of_getElem? hleaf, rfl⟩
  · cases hi

/-- **Scalars that are stored** at leaves apart are held there. -/
theorem holds_applyWrites {leaves : List Leaf} {scalars : List (List UInt8)} {buffer : List UInt8}
    (hsize : List.Forall₂ (fun leaf scalar => scalar.length = leaf.size) leaves scalars)
    (hapart : leaves.Pairwise fun a b => a.stop ≤ b.offset)
    (hstop : ∀ leaf ∈ leaves, leaf.stop ≤ buffer.length) :
    Holds (applyWrites buffer (leafWrites leaves scalars)) leaves scalars := by
  induction hsize generalizing buffer with
  | nil => exact .nil
  | @cons leaf scalar leaves scalars hlen hsizes ih =>
    rw [List.pairwise_cons] at hapart
    rw [List.forall_mem_cons] at hstop
    rw [leafWrites, List.zipWith_cons_cons, applyWrites_cons, ← leafWrites]
    refine .cons ?_ (ih hapart.2 fun other ho => ?_)
    · refine slice?_eq_some_iff.mpr ⟨?_, hlen, fun i hi => ?_⟩
      · rw [length_applyWrites, length_overwrite]
        exact hstop.1
      · -- the other leaves lie behind this one
        have hbehind : lastByte (leafWrites leaves scalars) (leaf.offset + i) = none := by
          refine lastByte_eq_none fun w hw hc => ?_
          obtain ⟨other, ho, hoffset⟩ := exists_of_mem_leafWrites hw
          have hle := hapart.1 other ho
          have hlo := hc.1
          rw [hoffset, Leaf.stop] at *
          omega
        have hlt : leaf.offset + i < buffer.length := by
          have hle := hstop.1
          rw [Leaf.stop] at hle
          omega
        rw [getElem?_applyWrites (by rwa [length_overwrite]), hbehind, Option.none_or,
          getElem?_overwrite hlt, Write.byte?, if_pos (Nat.le_add_right ..),
          Nat.add_sub_cancel_left]
        exact Option.or_of_isSome (by rw [List.getElem?_eq_getElem (by rwa [hlen])]; rfl)
    · rw [length_overwrite]
      exact hstop.2 other ho

/-- Storing some scalars at some leaves leaves the rest of the buffer alone. -/
theorem lastByte_leafWrites_eq_none {leaves : List Leaf} {scalars : List (List UInt8)}
    (hsize : List.Forall₂ (fun leaf scalar => scalar.length = leaf.size) leaves scalars) {i : Nat}
    (h : ∀ leaf ∈ leaves, i < leaf.offset ∨ leaf.stop ≤ i) :
    lastByte (leafWrites leaves scalars) i = none := by
  induction hsize with
  | nil => rfl
  | @cons leaf scalar leaves scalars hlen hsizes ih =>
    rw [List.forall_mem_cons] at h
    rw [leafWrites, List.zipWith_cons_cons, lastByte_cons, ← leafWrites, ih h.2, Option.none_or]
    refine Write.byte?_of_not_covers fun ⟨hlo, hhi⟩ => ?_
    rw [Write.stop, hlen, ← Leaf.stop] at hhi
    rcases h.1 with hbefore | hbehind
    · exact Nat.not_le_of_lt hbefore hlo
    · exact Nat.not_le_of_lt hhi hbehind

/-! ### Recovering values -/

namespace Value

variable {w : Nat}

/-- A scalar is decoded from its bytes. -/
theorem HasType.decodeScalar_eq_ok (hw : 0 < w ∧ w ≤ 8) {value : Value} {kind : Scalar}
    (h : value.HasType w (.scalar kind)) :
    ∃ bytes, value.scalars w = [bytes] ∧ bytes.length = kind.size w ∧
      decodeScalar kind bytes = .ok value := by
  cases h with
  | bool b => exact ⟨_, rfl, rfl, by cases b <;> rfl⟩
  | i32 n =>
    have hword := wordOf_toBytes_of_lt (show n.toUInt32.toNat < 256 ^ 4 from n.toUInt32.toNat_lt)
    refine ⟨_, rfl, length_toBytes .., ?_⟩
    rw [decodeScalar, length_toBytes, if_neg (by decide)]
    simp only [hword, UInt64.toUInt32_ofNat', UInt32.ofNat_toNat, Int32.toInt32_toUInt32]
  | i64 n =>
    have hword := wordOf_toBytes_of_lt (show n.toUInt64.toNat < 256 ^ 8 from n.toUInt64.toNat_lt)
    refine ⟨_, rfl, length_toBytes .., ?_⟩
    rw [decodeScalar, length_toBytes, if_neg (by decide)]
    simp only [hword, UInt64.ofNat_toNat, Int64.toInt64_toUInt64]
  | f64 bits =>
    have hword := wordOf_toBytes_of_lt (show bits.toNat < 256 ^ 8 from bits.toNat_lt)
    refine ⟨_, rfl, length_toBytes .., ?_⟩
    rw [decodeScalar, length_toBytes, if_neg (by decide)]
    simp only [hword, UInt64.ofNat_toNat]
  | ptr hlt =>
    refine ⟨_, rfl, length_toBytes .., ?_⟩
    rw [decodeScalar, length_toBytes, if_neg (by omega)]
    simp only [wordOf_toBytes_of_lt hlt, UInt64.ofNat_toNat]

end Value

namespace Layout

/-- Whatever holds the scalars of a value at the leaves of a layout is decoded to the value. -/
structure Recovers (w : Nat) (layout : Layout) (value : Value) : Prop where
  sizes : List.Forall₂ (fun leaf scalar => scalar.length = leaf.size) layout.leaves
    (value.scalars w)
  read : ∀ bytes : List UInt8, layout.size ≤ bytes.length →
    Holds bytes layout.leaves (value.scalars w) → layout.read bytes = .ok (some value)

section Width

variable {w : Nat}

theorem recovers_ofScalar (hw : 0 < w ∧ w ≤ 8) {value : Value} {kind : Scalar}
    (h : value.HasType w (.scalar kind)) : (ofScalar w kind).Recovers w value := by
  obtain ⟨scalar, hs, hlen, hd⟩ := h.decodeScalar_eq_ok hw
  constructor
  case sizes =>
    rw [leaves_ofScalar, hs]
    exact .cons hlen .nil
  case read =>
    intro bytes hle hb
    rw [leaves_ofScalar, hs, Holds, List.forall₂_cons] at hb
    rw [ofScalar, size_scalar] at hle
    have htake : bytes.take (kind.size w) = scalar := by
      have hslice : slice? bytes 0 (kind.size w) = some scalar := hb.1
      rw [slice?, if_pos (by omega), List.drop_zero] at hslice
      exact Option.some.inj hslice
    rw [ofScalar, Layout.read, if_pos hle, htake, hd]
    rfl

/-- The scalars of items lie at the leaves of the fields that recover them. -/
theorem sizes_fieldLeaves {fields : List Field} {items : List Value}
    (h : List.Forall₂ (fun field item => field.layout.Recovers w item) fields items) :
    List.Forall₂ (fun leaf scalar => scalar.length = leaf.size) (fieldLeaves fields)
      (Value.scalarsList w items) := by
  induction h with
  | nil => rw [fieldLeaves, Value.scalarsList]; exact .nil
  | @cons field item fields items hfield _ ih =>
    rw [fieldLeaves, Value.scalarsList]
    exact List.rel_append (List.forall₂_map_left_iff.mpr hfield.sizes) ih

/-- Fields that recover some items are read as these items. -/
theorem readFields_of_holds {fields : List Field} {items : List Value} {bytes : List UInt8}
    (h : List.Forall₂ (fun field item => field.layout.Recovers w item) fields items)
    (hstop : ∀ field ∈ fields, field.offset + field.layout.size ≤ bytes.length)
    (hb : Holds bytes (fieldLeaves fields) (Value.scalarsList w items)) :
    readFields fields bytes = .ok (some items) := by
  induction h with
  | nil => rw [readFields]
  | @cons field item fields items hfield _ ih =>
    obtain ⟨name, offset, layout⟩ := field
    rw [List.forall_mem_cons] at hstop
    have hlen : (layout.leaves.map (Leaf.shift offset)).length = (item.scalars w).length := by
      rw [List.length_map]
      exact hfield.sizes.length_eq
    rw [fieldLeaves, Value.scalarsList, holds_append hlen] at hb
    have hread := hfield.read (bytes.drop offset)
      (by have hle := hstop.1; dsimp only at hle ⊢; rw [List.length_drop]; omega) hb.1.drop
    rw [readFields, if_pos (by have hle := hstop.1; dsimp only at hle; omega), hread,
      ih hstop.2 hb.2]
    rfl

/-- What holds of the parts of a record holds of its fields. -/
theorem forall₂_place {α : Type} {R : Layout → α → Prop} {parts : List (String × Layout)}
    {xs : List α} (h : List.Forall₂ (fun part x => R part.2 x) parts xs) (offset : Nat) :
    List.Forall₂ (fun field x => R field.layout x) (place offset parts) xs := by
  induction h generalizing offset with
  | nil => exact .nil
  | cons head _ ih => exact .cons head (ih _)

/-- **A record recovers a tuple** if its parts recover the items. -/
theorem recovers_record (hw : w.isPowerOfTwo) {parts : List (String × Layout)} {items : List Value}
    (hr : ∀ part ∈ parts, part.2.Regular w)
    (h : List.Forall₂ (fun part item => part.2.Recovers w item) parts items) :
    (record parts).Recovers w (.tuple items) := by
  have hplaces := places_record fun part hp => Nat.pos_of_isPowerOfTwo (hr part hp).power
  have hfields := forall₂_place h 0
  have hwithin : ∀ leaf ∈ fieldLeaves (place 0 parts), leaf.stop ≤ (record parts).size := by
    have hleaves := (regular_record hw hr).within
    rwa [leaves_record] at hleaves
  constructor
  case sizes =>
    rw [leaves_record, Value.scalars]
    exact sizes_fieldLeaves hfields
  case read =>
    intro bytes hle hb
    rw [leaves_record, Value.scalars] at hb
    have hread := readFields_of_holds hfields (fun field hf => ?_) (hb.take hwithin)
    · rw [record, size_struct] at hle hread
      rw [record, Layout.read, if_pos hle, hread]
      rfl
    · have hstop := hplaces.within field hf
      rw [List.length_take]
      omega

mutual

/-- The layout of a type recovers the values of the type. -/
theorem recovers_ofType (hw : w.isPowerOfTwo) (hle : w ≤ 8) : ∀ {value : Value} {type : ValueType},
    value.HasType w type → (ofType w type).Recovers w value
  | value, .scalar kind, h => by
    rw [ofType]
    exact recovers_ofScalar ⟨Nat.pos_of_isPowerOfTwo hw, hle⟩ h
  | _, .tuple types, .tuple h => by
    rw [ofType]
    exact recovers_record hw (regular_tupleParts hw types 0) (recovers_tupleParts hw hle h 0)

theorem recovers_tupleParts (hw : w.isPowerOfTwo) (hle : w ≤ 8) : ∀ {items : List Value}
    {types : List ValueType}, Value.HaveTypes w items types → ∀ index,
    List.Forall₂ (fun part item => part.2.Recovers w item) (tupleParts w index types) items
  | _, [], .nil, index => by rw [tupleParts]; exact .nil
  | _, type :: rest, .cons head tail, index => by
    rw [tupleParts]
    exact .cons (recovers_ofType hw hle head) (recovers_tupleParts hw hle tail (index + 1))

end

end Width

/-! ### What decoding depends on -/

mutual

/-- The bytes of the scalars are those of the leaves. -/
theorem exists_leaf_of_mem_positions : ∀ {layout : Layout} {i : Nat}, i ∈ positions layout →
    ∃ leaf ∈ layout.leaves, leaf.offset ≤ i ∧ i < leaf.stop
  | scalar size align kind, i, hi => by
    rw [positions, List.mem_range] at hi
    rw [leaves_scalar]
    exact ⟨_, List.mem_singleton_self _, Nat.zero_le i,
      Nat.lt_of_lt_of_eq hi (Nat.zero_add size).symm⟩
  | struct size align fields, i, hi => by
    rw [positions] at hi
    rw [leaves_struct]
    exact exists_leaf_of_mem_fieldPositions hi

theorem exists_leaf_of_mem_fieldPositions : ∀ {fields : List (Placed Layout)} {i : Nat},
    i ∈ fieldPositions fields → ∃ leaf ∈ fieldLeaves fields, leaf.offset ≤ i ∧ i < leaf.stop
  | ⟨_, offset, layout⟩ :: rest, i, hi => by
    rw [fieldPositions, List.mem_append, List.mem_map] at hi
    rw [fieldLeaves]
    rcases hi with ⟨j, hj, rfl⟩ | hi
    · obtain ⟨leaf, hl, hlo, hhi⟩ := exists_leaf_of_mem_positions hj
      refine ⟨_, List.mem_append_left _ (List.mem_map_of_mem hl), ?_, ?_⟩
      · rw [Leaf.offset_shift]
        omega
      · rw [Leaf.stop_shift]
        omega
    · obtain ⟨leaf, hl, hbounds⟩ := exists_leaf_of_mem_fieldPositions hi
      exact ⟨leaf, List.mem_append_right _ hl, hbounds⟩

end

/-- **Decoding depends on the leaves only.** -/
theorem read_of_leaves {layout : Layout} (hs : layout.Sound)
    (hwithin : ∀ leaf ∈ layout.leaves, leaf.stop ≤ layout.size) {bytes bytes' : List UInt8}
    (hle : layout.size ≤ bytes.length) (hle' : layout.size ≤ bytes'.length)
    (h : ∀ leaf ∈ layout.leaves,
      slice? bytes leaf.offset leaf.size = slice? bytes' leaf.offset leaf.size) :
    layout.read bytes = layout.read bytes' := by
  refine read_congr hs hle hle' fun i hi => ?_
  obtain ⟨leaf, hl, hlo, hhi⟩ := exists_leaf_of_mem_positions hi
  have hstop := hwithin leaf hl
  rw [Leaf.stop] at hstop hhi
  obtain ⟨part, hpart⟩ : ∃ part, slice? bytes leaf.offset leaf.size = some part :=
    ⟨_, if_pos (Nat.le_trans hstop hle)⟩
  have hbyte := (slice?_eq_some_iff.mp hpart).2.2 (i - leaf.offset) (by omega)
  have hbyte' := (slice?_eq_some_iff.mp ((h leaf hl).symm.trans hpart)).2.2 (i - leaf.offset)
    (by omega)
  rw [Nat.add_sub_cancel' hlo] at hbyte hbyte'
  rw [hbyte, hbyte']

/-- A buffer that is too short holds no value. -/
theorem read_of_short {layout : Layout} {bytes : List UInt8} (h : bytes.length < layout.size) :
    layout.read bytes = .ok none := by
  have hnot := Nat.not_le_of_lt h
  cases layout with
  | scalar size align kind =>
    rw [size_scalar] at hnot
    rw [Layout.read, if_neg hnot]
  | struct size align fields =>
    rw [size_struct] at hnot
    rw [Layout.read, if_neg hnot]

/-- There is a value in a buffer exactly if it is long enough. -/
theorem exists_read_iff {layout : Layout} (hs : layout.Sound) (bytes : List UInt8) :
    ∃ value?, layout.read bytes = .ok value? ∧ (value?.isSome ↔ layout.size ≤ bytes.length) := by
  rcases Nat.lt_or_ge bytes.length layout.size with hlt | hle
  · refine ⟨none, read_of_short hlt, ?_⟩
    simp only [Option.isSome_none, Bool.false_eq_true, false_iff]
    omega
  · obtain ⟨value, hv⟩ := exists_read hs bytes hle
    exact ⟨some value, hv, iff_of_true rfl hle⟩

end Layout

/-! ### Layouts that are asked for -/

/-- **Decoding is total**, and undoes encoding.  The layout of a type that fits the machine is
given, whatever was asked before.  Every buffer can be read, and there is a value in it exactly if
it is as long as the layout.  If it holds the scalars of a value of the type at the leaves then this
is the value, whatever the other bytes are; and scalars that are stored there are held.  Buffers
that are long enough and hold the same at the leaves are decoded alike, and so are those that are
too short. -/
theorem LayoutCache.decodes {w : Nat} (hw : w = 4 ∨ w = 8) {cache : LayoutCache}
    (hc : cache.Reached w) (type : ValueType)
    (hfit : (Layout.ofType w type).size ≤ Layout.maxSize) :
    ∃ layout after, cache.answer (.value type) = .ok (some layout, after) ∧
      (∀ bytes, ∃ value?, layout.read bytes = .ok value? ∧
        (value?.isSome ↔ layout.size ≤ bytes.length)) ∧
      (∀ value : Value, value.HasType w type →
        (∀ bytes : List UInt8, layout.size ≤ bytes.length →
          Holds bytes layout.leaves (value.scalars w) → layout.read bytes = .ok (some value)) ∧
        ∀ buffer : List UInt8, layout.size ≤ buffer.length →
          Holds (applyWrites buffer (leafWrites layout.leaves (value.scalars w))) layout.leaves
            (value.scalars w)) ∧
      ∀ bytes bytes' : List UInt8, (layout.size ≤ bytes.length ↔ layout.size ≤ bytes'.length) →
        (∀ leaf ∈ layout.leaves,
          slice? bytes leaf.offset leaf.size = slice? bytes' leaf.offset leaf.size) →
        layout.read bytes = layout.read bytes' := by
  obtain ⟨hpower, hle, hmax⟩ : w.isPowerOfTwo ∧ w ≤ 8 ∧ w ≤ Layout.maxSize := by
    rcases hw with rfl | rfl
    · exact ⟨⟨2, rfl⟩, by decide, by decide⟩
    · exact ⟨⟨3, rfl⟩, by decide, by decide⟩
  have hpos : 0 < w := Nat.pos_of_isPowerOfTwo hpower
  have hsound := Layout.sound_ofType ⟨hpos, hle⟩ type
  have hregular := Layout.regular_ofType hpower type
  have hsubject : (LayoutQuery.value type).subject = some (.value type) := rfl
  obtain ⟨after, hanswer⟩ := (hc.answer_eq_ok_iff hpos hmax hsubject).mpr ⟨rfl, hfit⟩
  refine ⟨_, after, hanswer, Layout.exists_read_iff hsound, fun value hv => ?_, ?_⟩
  · have hrecovers := Layout.recovers_ofType hpower hle hv
    exact ⟨hrecovers.read, fun buffer hb => holds_applyWrites hrecovers.sizes hregular.apart
      fun leaf hl => Nat.le_trans (hregular.within leaf hl) hb⟩
  · intro bytes bytes' hlen h
    rcases Nat.lt_or_ge bytes.length (Layout.ofType w type).size with hlt | hge
    · rw [LayoutSubject.layout, Layout.read_of_short hlt, Layout.read_of_short (by
        rw [LayoutSubject.layout] at hlen; omega)]
    · exact Layout.read_of_leaves hsound hregular.within hge (hlen.mp hge) h

/-- A nested tuple on a target with pointers of four bytes, between bytes that do not matter. -/
theorem LayoutCache.decodes_padded :
    let type : ValueType := .tuple [.scalar .bool, .tuple [.scalar .i32, .scalar .ptr], .tuple []]
    let value : Value := .tuple [.bool true, .tuple [.i32 (-2), .ptr 4096], .tuple []]
    let bytes : List UInt8 := [1, 99, 99, 99, 254, 255, 255, 255, 0, 16, 0, 0, 99]
    ∃ layout after, (fresh 4).answer (.value type) = .ok (some layout, after) ∧
      value.HasType 4 type ∧ layout.read bytes = .ok (some value) ∧
      layout.read (bytes.take 11) = .ok none := by
  intro type value bytes
  have hreached : (fresh 4).Reached 4 := ⟨[], [], rfl⟩
  have htype : value.HasType 4 type :=
    .tuple (.cons (.bool true) (.cons (.tuple (.cons (.i32 (-2)) (.cons (.ptr (by decide)) .nil)))
      (.cons (.tuple .nil) .nil)))
  obtain ⟨layout, after, hanswer, htotal, hvalues, -⟩ :=
    decodes (.inl rfl) hreached type (by decide)
  obtain ⟨rfl, -⟩ := (hreached.answer_eq_ok_iff (by decide) (by decide) rfl).mp ⟨after, hanswer⟩
  have hholds : Holds bytes (Layout.ofType 4 type).leaves (value.scalars 4) :=
    .cons rfl (.cons rfl (.cons rfl .nil))
  refine ⟨_, after, hanswer, htype, (hvalues value htype).1 bytes (by decide) hholds, ?_⟩
  obtain ⟨value?, hread, hsome⟩ := htotal (bytes.take 11)
  have hnone : value? = none := by
    rw [← Option.not_isSome_iff_eq_none, hsome]
    decide
  rw [hread, hnone]

end PullIter
