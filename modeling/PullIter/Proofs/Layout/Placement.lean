import PullIter.Layout.Standard

/-!
# Where the fields of a record lie

The fields of a record follow each other without overlap and end within the record, so that the
bytes of the scalars in a value type all belong to its layout.

## Main definitions

* `Layout.Sound` — every field lies within its record, and every scalar fits a word.
* `Layout.Apart` — fields that follow each other without overlap.
* `Layout.positions` — the offsets of the bytes of all scalars.

## Main results

* `apart_place`, `stop_le_placedEnd` — the fields of a record are apart and within it.
* `sound_ofType` — the layout of a value type is sound.
* `lt_size_of_mem_positions` — a scalar lies within its layout.
-/

namespace PullIter.Layout

/-! ### Sound layouts -/

mutual

/-- Every field lies within its record, and every scalar fits a word. -/
def Sound : Layout → Prop
  | scalar size _ _ => 0 < size ∧ size ≤ 8
  | struct size _ fields => SoundFields size fields

/-- Every field lies within a record of `size` bytes. -/
def SoundFields (size : Nat) : List (Placed Layout) → Prop
  | [] => True
  | ⟨_, offset, layout⟩ :: rest =>
    offset + layout.size ≤ size ∧ Sound layout ∧ SoundFields size rest

end

mutual

/-- The offsets of the bytes of all scalars. -/
def positions : Layout → List Nat
  | scalar size _ _ => List.range size
  | struct _ _ fields => fieldPositions fields

/-- The same for some fields. -/
def fieldPositions : List (Placed Layout) → List Nat
  | [] => []
  | ⟨_, offset, layout⟩ :: rest => (positions layout).map (offset + ·) ++ fieldPositions rest

end

theorem mem_fieldPositions {fields : List (Placed Layout)} {i : Nat} :
    i ∈ fieldPositions fields ↔
      ∃ field ∈ fields, ∃ j ∈ positions field.layout, field.offset + j = i := by
  induction fields with
  | nil => simp [fieldPositions]
  | cons field rest ih =>
    rw [fieldPositions, List.mem_append, ih, List.mem_map]
    simp only [List.mem_cons, exists_eq_or_imp]

theorem soundFields_iff {size : Nat} {fields : List (Placed Layout)} :
    SoundFields size fields ↔
      ∀ field ∈ fields, field.offset + field.layout.size ≤ size ∧ Sound field.layout := by
  induction fields with
  | nil => simp [SoundFields]
  | cons field rest ih =>
    rw [SoundFields, ih]
    simp only [List.mem_cons, forall_eq_or_imp, and_assoc]

/-- A scalar lies within its layout. -/
theorem lt_size_of_mem_positions : ∀ {layout : Layout}, Sound layout → ∀ {i}, i ∈ positions layout →
    i < layout.size
  | scalar size _ _, _, i, hi => by
    rw [positions, List.mem_range] at hi
    exact hi
  | struct size _ fields, hs, i, hi => by
    rw [Sound] at hs
    rw [positions] at hi
    exact lt_of_mem_fieldPositions hs hi
where
  lt_of_mem_fieldPositions : ∀ {fields : List (Placed Layout)} {size : Nat},
      SoundFields size fields → ∀ {i}, i ∈ fieldPositions fields → i < size
    | ⟨_, offset, layout⟩ :: rest, size, hs, i, hi => by
      rw [SoundFields] at hs
      rw [fieldPositions, List.mem_append, List.mem_map] at hi
      rcases hi with ⟨j, hj, rfl⟩ | hi
      · have hlt := lt_size_of_mem_positions hs.2.1 hj
        omega
      · exact lt_of_mem_fieldPositions hs.2.2 hi

/-! ### Records -/

/-- Fields that follow each other without overlap, from an offset on. -/
def Apart (start : Nat) : List (Placed Layout) → Prop
  | [] => True
  | field :: rest => start ≤ field.offset ∧ Apart (field.offset + field.layout.size) rest

theorem apart_place {parts : List (String × Layout)} (h : ∀ part ∈ parts, 0 < part.2.align)
    (offset : Nat) : Apart offset (place offset parts) := by
  induction parts generalizing offset with
  | nil => trivial
  | cons part rest ih =>
    obtain ⟨name, layout⟩ := part
    rw [place_cons]
    refine ⟨le_alignTo (h _ (List.mem_cons_self ..)), ih (fun part hp => h part ?_) _⟩
    exact List.mem_cons_of_mem _ hp

/-- None of them lies before the first offset. -/
theorem Apart.le_offset {fields : List Field} {start : Nat} (h : Apart start fields) :
    ∀ field ∈ fields, start ≤ field.offset := by
  induction fields generalizing start with
  | nil => intro field hf; simp at hf
  | cons first rest ih =>
    obtain ⟨hle, hrest⟩ := h
    intro field hf
    rcases List.mem_cons.mp hf with rfl | hf
    · exact hle
    · have hge := ih hrest field hf
      omega

theorem le_placedEnd {parts : List (String × Layout)} (h : ∀ part ∈ parts, 0 < part.2.align)
    (offset : Nat) : offset ≤ placedEnd offset parts := by
  induction parts generalizing offset with
  | nil => exact Nat.le_refl _
  | cons part rest ih =>
    obtain ⟨name, layout⟩ := part
    rw [placedEnd_cons]
    have hle : offset ≤ alignTo offset layout.align := le_alignTo (h _ (List.mem_cons_self ..))
    have hrest := ih (fun part hp => h part (List.mem_cons_of_mem _ hp))
      (alignTo offset layout.align + layout.size)
    omega

/-- Every field ends within the placed parts. -/
theorem stop_le_placedEnd {parts : List (String × Layout)} (h : ∀ part ∈ parts, 0 < part.2.align)
    (offset : Nat) : ∀ field ∈ place offset parts,
      field.offset + field.layout.size ≤ placedEnd offset parts := by
  induction parts generalizing offset with
  | nil => intro field hf; simp at hf
  | cons part rest ih =>
    obtain ⟨name, layout⟩ := part
    have hrest : ∀ part ∈ rest, 0 < part.2.align :=
      fun part hp => h part (List.mem_cons_of_mem _ hp)
    intro field hf
    rw [place_cons] at hf
    rw [placedEnd_cons]
    rcases List.mem_cons.mp hf with rfl | hf
    · exact le_placedEnd hrest _
    · exact ih hrest _ field hf

/-- What holds of all parts of a record holds of all its fields. -/
theorem forall_mem_place {p : Layout → Prop} {parts : List (String × Layout)}
    (h : ∀ part ∈ parts, p part.2) (offset : Nat) :
    ∀ field ∈ place offset parts, p field.layout := by
  intro field hf
  refine h (field.name, field.layout) ?_
  rw [← map_place offset parts]
  exact List.mem_map.mpr ⟨field, hf, rfl⟩

theorem maxAlign_pos (parts : List (String × Layout)) : 0 < maxAlign parts := by
  have hle : ∀ (parts : List (String × Layout)) (align : Nat),
      align ≤ parts.foldl (fun align part => max align part.2.align) align := by
    intro parts
    induction parts with
    | nil => intro align; exact Nat.le_refl _
    | cons part rest ih => intro align; exact Nat.le_trans (Nat.le_max_left ..) (ih _)
  exact hle parts 1

/-- The record of sound parts is sound. -/
theorem sound_record {parts : List (String × Layout)} (halign : ∀ part ∈ parts, 0 < part.2.align)
    (h : ∀ part ∈ parts, Sound part.2) : Sound (record parts) := by
  rw [record, Sound, soundFields_iff]
  intro field hf
  constructor
  · exact Nat.le_trans (stop_le_placedEnd halign 0 field hf) (le_alignTo (maxAlign_pos parts))
  · exact forall_mem_place h 0 field hf

/-! ### Value types

On a target with pointers of positive width every part takes room, and if a pointer fits a word then
so does every scalar. -/

section Width

variable {w : Nat}

theorem align_ofScalar_pos (hw : 0 < w) (kind : Scalar) : 0 < (ofScalar w kind).align :=
  Scalar.size_pos hw kind

theorem sound_ofScalar (hw : 0 < w ∧ w ≤ 8) (kind : Scalar) : Sound (ofScalar w kind) := by
  rw [ofScalar, Sound]
  refine ⟨Scalar.size_pos hw.1 kind, ?_⟩
  cases kind with
  | ptr => exact hw.2
  | _ => simp

theorem align_ofType_pos (hw : 0 < w) (type : ValueType) : 0 < (ofType w type).align := by
  cases type with
  | scalar kind => rw [ofType]; exact align_ofScalar_pos hw kind
  | tuple fields => rw [ofType, align_record]; exact maxAlign_pos _

theorem align_tupleParts_pos (hw : 0 < w) {types : List ValueType} : ∀ {index : Nat},
    ∀ part ∈ tupleParts w index types, 0 < part.2.align := by
  induction types with
  | nil => intro index part hp; simp [tupleParts] at hp
  | cons type rest ih =>
    intro index part hp
    rw [tupleParts] at hp
    rcases List.mem_cons.mp hp with rfl | hp
    · exact align_ofType_pos hw type
    · exact ih part hp

mutual

/-- **The layout of a value type** is sound. -/
theorem sound_ofType (hw : 0 < w ∧ w ≤ 8) : ∀ type : ValueType, Sound (ofType w type)
  | .scalar kind => by rw [ofType]; exact sound_ofScalar hw kind
  | .tuple fields => by
    rw [ofType]
    exact sound_record (align_tupleParts_pos hw.1) (sound_tupleParts hw fields 0)

theorem sound_tupleParts (hw : 0 < w ∧ w ≤ 8) : ∀ (types : List ValueType) (index : Nat),
    ∀ part ∈ tupleParts w index types, Sound part.2
  | [], index, part, hp => by simp [tupleParts] at hp
  | type :: rest, index, part, hp => by
    rw [tupleParts] at hp
    rcases List.mem_cons.mp hp with rfl | hp
    · exact sound_ofType hw type
    · exact sound_tupleParts hw rest (index + 1) part hp

end

end Width

end PullIter.Layout
