import PullIter.Layout.Decode
import PullIter.Proofs.Layout.Buffer
import PullIter.Proofs.Layout.Placement

/-!
# Reading what was written

A value is read from the bytes of its scalars and from no others, and every buffer of its size
holds a value.  So the value that writes leave in a buffer does not depend on the buffer, once
they cover all scalars.

## Main definitions

* `Covers` — some writes cover every scalar of a layout.

## Main results

* `exists_read` — every buffer of the size of a layout holds a value.
* `read_congr` — the value depends on the scalars only.
* `read_applyWrites` — covering writes leave the same value in every buffer.
* `covers_fields` — writes that cover each field cover the record.
-/

namespace PullIter

namespace Layout

/-! ### Every buffer holds a value -/

theorem decodeScalar_ok (kind : Scalar) (bytes : List UInt8) (hpos : 0 < bytes.length)
    (hle : bytes.length ≤ 8) : ∃ value, decodeScalar kind bytes = .ok value := by
  unfold decodeScalar
  rw [if_neg (by omega)]
  cases bytes with
  | nil => cases hpos
  | cons b bytes => cases kind <;> exact ⟨_, rfl⟩

mutual

/-- Every buffer of the size of a layout holds a value. -/
theorem exists_read : ∀ {layout : Layout}, Sound layout → ∀ (bytes : List UInt8),
    layout.size ≤ bytes.length → ∃ value, layout.read bytes = .ok (some value)
  | scalar size align kind, hs, bytes, hle => by
    rw [Sound] at hs
    rw [size_scalar] at hle
    have hlen : (bytes.take size).length = size := by rw [List.length_take]; omega
    obtain ⟨value, hv⟩ := decodeScalar_ok kind (bytes.take size) (by omega) (by omega)
    exact ⟨value, by rw [read, if_pos hle, hv]; rfl⟩
  | struct size align fields, hs, bytes, hle => by
    rw [Sound] at hs
    rw [size_struct] at hle
    have hlen : (bytes.take size).length = size := by rw [List.length_take]; omega
    obtain ⟨values, hv⟩ := exists_readFields hs (bytes.take size) (by omega)
    exact ⟨.tuple values, by rw [read, if_pos hle, hv]; rfl⟩

theorem exists_readFields : ∀ {fields : List (Placed Layout)} {size : Nat},
    SoundFields size fields → ∀ (bytes : List UInt8), size ≤ bytes.length →
    ∃ values, readFields fields bytes = .ok (some values)
  | [], size, hs, bytes, hle => ⟨[], by rw [readFields]⟩
  | ⟨name, offset, layout⟩ :: rest, size, hs, bytes, hle => by
    rw [SoundFields] at hs
    have hlen : layout.size ≤ (bytes.drop offset).length := by rw [List.length_drop]; omega
    obtain ⟨value, hv⟩ := exists_read hs.2.1 _ hlen
    obtain ⟨values, hvs⟩ := exists_readFields hs.2.2 bytes hle
    exact ⟨value :: values, by rw [readFields, if_pos (by omega), hv, hvs]; rfl⟩

end

/-! ### What a value depends on -/

theorem take_congr {bytes bytes' : List UInt8} {size : Nat} (h : size ≤ bytes.length)
    (h' : size ≤ bytes'.length) (hb : ∀ i < size, bytes[i]? = bytes'[i]?) :
    bytes.take size = bytes'.take size := by
  apply List.ext_getElem?
  intro i
  by_cases hi : i < size
  · rw [List.getElem?_take_of_lt hi, List.getElem?_take_of_lt hi, hb i hi]
  · rw [List.getElem?_eq_none (by rw [List.length_take]; omega),
      List.getElem?_eq_none (by rw [List.length_take]; omega)]

mutual

/-- **The value depends on the scalars only.** -/
theorem read_congr : ∀ {layout : Layout}, Sound layout → ∀ {bytes bytes' : List UInt8},
    layout.size ≤ bytes.length → layout.size ≤ bytes'.length →
    (∀ i ∈ positions layout, bytes[i]? = bytes'[i]?) → layout.read bytes = layout.read bytes'
  | scalar size align kind, hs, bytes, bytes', hle, hle', hb => by
    rw [size_scalar] at hle hle'
    have htake : bytes.take size = bytes'.take size :=
      take_congr hle hle' fun i hi => hb i (by rw [positions]; exact List.mem_range.mpr hi)
    rw [read, read, if_pos hle, if_pos hle', htake]
  | struct size align fields, hs, bytes, bytes', hle, hle', hb => by
    rw [size_struct] at hle hle'
    rw [Sound] at hs
    have hfields : readFields fields (bytes.take size) = readFields fields (bytes'.take size) := by
      apply readFields_congr hs
      · rw [List.length_take]; omega
      · rw [List.length_take]; omega
      · intro i hi
        have hlt : i < size := lt_size_of_mem_positions (show Sound (struct size align fields) by
          rw [Sound]; exact hs) (by rw [positions]; exact hi)
        rw [List.getElem?_take_of_lt hlt, List.getElem?_take_of_lt hlt]
        exact hb i (by rw [positions]; exact hi)
    rw [read, read, if_pos hle, if_pos hle', hfields]

theorem readFields_congr : ∀ {fields : List (Placed Layout)} {size : Nat},
    SoundFields size fields → ∀ {bytes bytes' : List UInt8},
    size ≤ bytes.length → size ≤ bytes'.length →
    (∀ i ∈ fieldPositions fields, bytes[i]? = bytes'[i]?) →
    readFields fields bytes = readFields fields bytes'
  | [], size, hs, bytes, bytes', hle, hle', hb => by rw [readFields, readFields]
  | ⟨name, offset, layout⟩ :: rest, size, hs, bytes, bytes', hle, hle', hb => by
    rw [SoundFields] at hs
    have hread : layout.read (bytes.drop offset) = layout.read (bytes'.drop offset) := by
      apply read_congr hs.2.1
      · rw [List.length_drop]; omega
      · rw [List.length_drop]; omega
      · intro i hi
        rw [List.getElem?_drop, List.getElem?_drop]
        refine hb _ ?_
        rw [fieldPositions, List.mem_append, List.mem_map]
        exact .inl ⟨i, hi, rfl⟩
    have hrest : readFields rest bytes = readFields rest bytes' :=
      readFields_congr hs.2.2 hle hle' fun i hi =>
        hb i (by rw [fieldPositions, List.mem_append]; exact .inr hi)
    rw [readFields, readFields, if_pos (by omega), if_pos (by omega), hread, hrest]

end

/-! ### Covering writes -/

/-- Some writes cover every scalar of a layout. -/
def Covers (layout : Layout) (ws : List Write) : Prop :=
  ∀ i ∈ positions layout, (lastByte ws i).isSome

/-- **Covering writes** leave the same value in every buffer. -/
theorem read_applyWrites {layout : Layout} (hs : Sound layout) {ws : List Write}
    (hc : layout.Covers ws) {buffer buffer' : List UInt8} (h : layout.size ≤ buffer.length)
    (h' : layout.size ≤ buffer'.length) :
    layout.read (applyWrites buffer ws) = layout.read (applyWrites buffer' ws) := by
  apply read_congr hs
  · rwa [length_applyWrites]
  · rwa [length_applyWrites]
  · intro i hi
    have hlt := lt_size_of_mem_positions hs hi
    rw [getElem?_applyWrites_of_covered (by omega) (hc i hi),
      getElem?_applyWrites_of_covered (by omega) (hc i hi)]

/-- Writes are covered by more writes as well. -/
theorem isSome_lastByte_of_mem {ws more : List Write} (h : ∀ w ∈ ws, w ∈ more) {i : Nat}
    (hi : (lastByte ws i).isSome) : (lastByte more i).isSome := by
  rw [isSome_lastByte] at hi ⊢
  obtain ⟨w, hw, hc⟩ := hi
  exact ⟨w, h w hw, hc⟩

/-- Writes that cover each field of a record cover the record. -/
theorem covers_fields {size align : Nat} {fields : List (Placed Layout)} {more : List Write}
    (h : ∀ field ∈ fields, ∃ ws, field.layout.Covers ws ∧
      ∀ w ∈ ws.map (Write.shift field.offset), w ∈ more) :
    (struct size align fields).Covers more := by
  intro i hi
  rw [positions, mem_fieldPositions] at hi
  obtain ⟨field, hf, j, hj, rfl⟩ := hi
  obtain ⟨ws, hc, hsub⟩ := h field hf
  refine isSome_lastByte_of_mem hsub ?_
  rw [lastByte_shift, if_pos (Nat.le_add_right ..), Nat.add_sub_cancel_left]
  exact hc j hj

end Layout

end PullIter
