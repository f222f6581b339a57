import PullIter.Exec.Body
import PullIter.Layout.ArgRecord
import PullIter.Proofs.Layout.Reading

/-!
# Storing the parts of a record

A record is stored part by part, each part into its own field.  As the fields do not overlap, no
part spoils another one, and each is found again where its field is: a value that was put together
of the values of its fields, or an argument in its record.

## Main definitions

* `Layout.Stores` — some writes stay within a layout and leave a value there.
* `Layout.Fills` — some writes leave a value in each of some fields.

## Main results

* `stores_struct` — the record of filled fields is stored as a tuple.
* `Fills.part` — one part more, in front of the others.
* `loadArg_record` — every argument is found in its record.
-/

namespace PullIter

/-- A part that is stored before what lies behind it keeps its bytes. -/
theorem lastByte_part {part behind : List Write} {offset size j : Nat}
    (hbehind : ∀ w ∈ behind, offset + size ≤ w.offset) (hj : j < size) :
    lastByte (part.map (Write.shift offset) ++ behind) (offset + j) = lastByte part j := by
  have hnone : lastByte behind (offset + j) = none := by
    refine lastByte_eq_none fun w hw hc => ?_
    have hle := hbehind w hw
    have hlo := hc.1
    omega
  rw [lastByte_append, hnone, Option.none_or, lastByte_shift, if_pos (Nat.le_add_right ..),
    Nat.add_sub_cancel_left]

/-- What lies behind a part does not notice it. -/
theorem lastByte_behind {part behind : List Write} {offset size i : Nat}
    (hpart : ∀ w ∈ part, w.stop ≤ size) (hi : offset + size ≤ i) :
    lastByte (part.map (Write.shift offset) ++ behind) i = lastByte behind i := by
  have hnone : lastByte (part.map (Write.shift offset)) i = none := by
    refine lastByte_eq_none fun w hw hc => ?_
    obtain ⟨v, hv, rfl⟩ := List.mem_map.mp hw
    have hle := hpart v hv
    have hlt : i < offset + v.stop := by simpa using hc.2
    omega
  rw [lastByte_append, hnone, Option.or_none]

namespace Layout

/-! ### Values -/

/-- Some writes stay within a layout and leave a value there, whatever was there before. -/
structure Stores (layout : Layout) (ws : List Write) (value : Value) : Prop where
  within : ∀ w ∈ ws, w.stop ≤ layout.size
  covers : layout.Covers ws
  read : ∀ buffer : List UInt8, layout.size ≤ buffer.length →
    layout.read (applyWrites buffer ws) = .ok (some value)

/-- Some writes leave a value in each of some fields: where a field is, they are as good as writes
that store its value. -/
inductive Fills (ws : List Write) : List Field → List Value → Prop
  | nil : Fills ws [] []
  | cons {field : Field} {fields : List Field} {value : Value} {values : List Value}
      {part : List Write} (stores : field.layout.Stores part value)
      (bytes : ∀ j < field.layout.size, lastByte ws (field.offset + j) = lastByte part j)
      (rest : Fills ws fields values) : Fills ws (field :: fields) (value :: values)

theorem Fills.covers {ws : List Write} {fields : List Field} {values : List Value}
    (h : Fills ws fields values) {size : Nat} (hs : SoundFields size fields) :
    ∀ i ∈ fieldPositions fields, (lastByte ws i).isSome := by
  induction h with
  | nil => intro i hi; simp [fieldPositions] at hi
  | @cons field fields value values part stores bytes rest ih =>
    obtain ⟨name, offset, layout⟩ := field
    rw [SoundFields] at hs
    intro i hi
    rw [fieldPositions, List.mem_append, List.mem_map] at hi
    rcases hi with ⟨j, hj, rfl⟩ | hi
    · rw [bytes j (lt_size_of_mem_positions hs.2.1 hj)]
      exact stores.covers j hj
    · exact ih hs.2.2 i hi

/-- The values of filled fields are read again. -/
theorem readFields_of_fills {ws : List Write} {fields : List Field} {values : List Value}
    (h : Fills ws fields values) {size : Nat} (hs : SoundFields size fields) {buffer : List UInt8}
    (hb : size ≤ buffer.length) :
    readFields fields ((applyWrites buffer ws).take size) = .ok (some values) := by
  induction h with
  | nil => rw [readFields]
  | @cons field fields value values part stores bytes rest ih =>
    obtain ⟨name, offset, layout⟩ := field
    rw [SoundFields] at hs
    have hlen : ((applyWrites buffer ws).take size).length = size := by
      rw [List.length_take, length_applyWrites]
      omega
    -- the field is read as if its part had been stored alone
    have hread : layout.read (((applyWrites buffer ws).take size).drop offset) =
        layout.read (applyWrites (List.replicate layout.size 0) part) := by
      apply read_congr hs.2.1
      · rw [List.length_drop, hlen]
        omega
      · exact Nat.le_of_eq (by rw [length_applyWrites, List.length_replicate])
      · intro j hj
        have hlt : j < layout.size := lt_size_of_mem_positions hs.2.1 hj
        have hcov := stores.covers j hj
        rw [List.getElem?_drop, List.getElem?_take_of_lt (by omega),
          getElem?_applyWrites_of_covered (by omega) (by rw [bytes j hlt]; exact hcov), bytes j hlt,
          getElem?_applyWrites_of_covered (by rwa [List.length_replicate]) hcov]
    have hvalue := stores.read (List.replicate layout.size 0)
      (Nat.le_of_eq (List.length_replicate ..).symm)
    rw [readFields, if_pos (by rw [hlen]; omega), hread, hvalue, ih hs.2.2]
    rfl

/-- **The record of filled fields** is stored as a tuple. -/
theorem stores_struct {size align : Nat} {fields : List Field} {ws : List Write}
    {values : List Value} (hs : Sound (struct size align fields)) (h : Fills ws fields values)
    (hw : ∀ w ∈ ws, w.stop ≤ size) : (struct size align fields).Stores ws (.tuple values) where
  within := hw
  covers := by
    rw [Sound] at hs
    intro i hi
    rw [positions] at hi
    exact h.covers hs i hi
  read := by
    rw [Sound] at hs
    intro buffer hb
    rw [size_struct] at hb
    rw [Layout.read, if_pos (by rwa [length_applyWrites]), readFields_of_fills h hs hb]
    rfl

theorem Fills.congr {ws ws' : List Write} {fields : List Field} {values : List Value}
    (h : Fills ws fields values) {start : Nat} (ha : Apart start fields)
    (heq : ∀ i, start ≤ i → lastByte ws' i = lastByte ws i) : Fills ws' fields values := by
  induction h generalizing start with
  | nil => exact .nil
  | @cons field fields value values part stores bytes rest ih =>
    obtain ⟨hle, hrest⟩ := ha
    refine .cons stores (fun j hj => ?_) (ih hrest fun i hi => heq i ?_)
    · rw [heq _ (by omega), bytes j hj]
    · omega

/-- **One part more**, in front of the others. -/
theorem Fills.part {ws part : List Write} {field : Field} {fields : List Field} {value : Value}
    {values : List Value} (h : Fills ws fields values) (stores : field.layout.Stores part value)
    (ha : Apart (field.offset + field.layout.size) fields)
    (hbehind : ∀ w ∈ ws, field.offset + field.layout.size ≤ w.offset) :
    Fills (part.map (Write.shift field.offset) ++ ws) (field :: fields) (value :: values) :=
  .cons stores (fun _ hj => lastByte_part hbehind hj)
    (h.congr ha fun _ hi => lastByte_behind stores.within hi)

/-- The bytes of a 64-bit number are the number. -/
theorem wordOf_toBytes (word : UInt64) : wordOf (toBytes 8 word.toNat) = word := by
  rw [wordOf_toBytes_of_lt (show word.toNat < 256 ^ 8 from word.toNat_lt), UInt64.ofNat_toNat]

/-- A 64-bit number covers its scalar. -/
theorem covers_word (n : Int64) : (scalar 8 8 .i64).Covers [.word n] := by
  intro i hi
  rw [positions, List.mem_range] at hi
  rw [isSome_lastByte]
  refine ⟨.word n, List.mem_singleton_self _, Nat.zero_le _, ?_⟩
  simp only [Write.stop, Write.word, length_toBytes]
  omega

/-- A 64-bit number is stored as itself. -/
theorem stores_word (n : Int64) : (scalar 8 8 .i64).Stores [.word n] (.i64 n) where
  within := by
    intro w hw
    rw [List.mem_singleton.mp hw]
    simp only [Write.stop, Write.word, length_toBytes, size_scalar]
    omega
  covers := covers_word n
  read := by
    intro buffer hb
    rw [size_scalar] at hb
    have hlen : (toBytes 8 n.toUInt64.toNat).length = 8 := length_toBytes ..
    have hover : overwrite buffer (.word n) = toBytes 8 n.toUInt64.toNat ++ buffer.drop 8 := by
      rw [overwrite_of_stop_le (by simp only [Write.stop, Write.word, hlen]; omega)]
      simp only [Write.stop, Write.word, hlen, List.take_zero, List.nil_append]
    have htake : (applyWrites buffer [.word n]).take 8 = toBytes 8 n.toUInt64.toNat := by
      rw [applyWrites_cons, applyWrites_nil, hover, List.take_left' hlen]
    rw [Layout.read, if_pos (by rwa [length_applyWrites]), htake, decodeScalar, hlen,
      if_neg (by decide)]
    simp only [wordOf_toBytes]
    rfl

end Layout

/-! ### Arguments -/

namespace Arg

/-- An argument fills a field of its kind. -/
theorem length_bytes (arg : Arg) : arg.bytes.length = (Layout.ofScalar 8 arg.kind).size := by
  cases arg <;> simp [bytes, kind, Layout.ofScalar]

/-- Where the field of an argument is, the writes of all arguments leave its bytes. -/
theorem lastByte_writes {fields : List Field} {args : List Arg} {start : Nat}
    (ha : Layout.Apart start fields)
    (hfit : fields.map (fun field => field.layout.size) = args.map fun arg => arg.bytes.length)
    {i : Nat} {field : Field} {arg : Arg} (hf : fields[i]? = some field) (harg : args[i]? = some arg) :
    ∀ j < field.layout.size, lastByte (writes fields args) (field.offset + j) = arg.bytes[j]? := by
  induction fields generalizing args start i with
  | nil => cases hf
  | cons first rest ih =>
    cases args with
    | nil => cases harg
    | cons head args =>
      obtain ⟨hle, hrest⟩ := ha
      rw [List.map_cons, List.map_cons, List.cons.injEq] at hfit
      have hsplit : writes (first :: rest) (head :: args) =
          [(⟨0, head.bytes⟩ : Write)].map (Write.shift first.offset) ++ writes rest args := rfl
      intro j hj
      rw [hsplit]
      cases i with
      | zero =>
        cases hf
        cases harg
        rw [lastByte_part _ hj]
        · simp [Write.byte?]
        · -- the arguments behind it are in the fields behind it
          intro w hw
          obtain ⟨k, hk⟩ := List.mem_iff_getElem?.mp hw
          rw [writes, List.getElem?_zipWith] at hk
          split at hk
          · next field' _ hfield _ =>
            cases hk
            exact hrest.le_offset _ (List.mem_of_getElem? hfield)
          · cases hk
      | succ i =>
        rw [List.getElem?_cons_succ] at hf harg
        have hge := hrest.le_offset field (List.mem_of_getElem? hf)
        rw [@lastByte_behind _ _ _ first.layout.size, ih hrest hfit.2 hf harg j hj]
        · intro w hw
          rw [List.mem_singleton.mp hw, hfit.1]
          simp [Write.stop]
        · omega

/-- The words hold the image of the record, filled up with zeros. -/
theorem record_eq_image (layout : Layout) (args : List Arg) : record layout args =
    image layout args ++ List.replicate (paddedSize layout.size - layout.size) 0 := by
  rw [record, ofWords_toWords, length_image]
  rfl

/-- Within its layout a record is its image. -/
theorem getElem?_record {layout : Layout} {args : List Arg} {i : Nat} (h : i < layout.size) :
    (record layout args)[i]? = (image layout args)[i]? := by
  rw [record_eq_image, List.getElem?_append_left (by rwa [length_image])]

/-- Packed arguments are the record. -/
theorem eq_record_of_pack {layout : Layout} {args : List Arg} {record : List UInt8}
    (h : Arg.pack layout args = .ok (.ok record)) : record = Arg.record layout args := by
  unfold Arg.pack at h
  split at h
  · cases hc : Arg.check layout.size layout.fields args with
    | error fault => rw [hc] at h; cases h
    | ok checked =>
      rw [hc] at h
      cases checked with
      | error e => cases h
      | ok => cases h; rfl
  · cases h

end Arg

namespace Exec

/-- **Every argument** is found in its record. -/
theorem loadArg_record {parts : List (String × Layout)} {args : List Arg}
    (hparts : parts.map Prod.snd = args.map fun arg => Layout.ofScalar 8 arg.kind) {i : Nat}
    {arg : Arg} (harg : args[i]? = some arg) :
    loadArg (Layout.record parts) i (Arg.record (Layout.record parts) args) =
      .ok (wordOf arg.bytes) := by
  have halign : ∀ part ∈ parts, 0 < part.2.align := by
    intro part hp
    have hm : part.2 ∈ args.map fun arg => Layout.ofScalar 8 arg.kind := by
      rw [← hparts]
      exact List.mem_map.mpr ⟨part, hp, rfl⟩
    obtain ⟨arg, -, heq⟩ := List.mem_map.mp hm
    rw [← heq]
    exact Layout.align_ofScalar_pos (by decide) arg.kind
  have hlayouts : (Layout.place 0 parts).map Placed.layout =
      args.map fun arg => Layout.ofScalar 8 arg.kind := by
    rw [← hparts, ← Layout.map_place 0 parts, List.map_map]
    rw [Layout.map_place]
    rfl
  have hfit : (Layout.place 0 parts).map (fun field => field.layout.size) =
      args.map fun arg => arg.bytes.length := by
    have hsizes := congrArg (List.map Layout.size) hlayouts
    rw [List.map_map, List.map_map] at hsizes
    refine hsizes.trans (List.map_congr_left fun arg _ => ?_)
    exact arg.length_bytes.symm
  obtain ⟨field, hfield, hlayout⟩ : ∃ field, (Layout.place 0 parts)[i]? = some field ∧
      field.layout = Layout.ofScalar 8 arg.kind := by
    have hget := congrArg (fun layouts => layouts[i]?) hlayouts
    simp only [List.getElem?_map, harg, Option.map_some] at hget
    obtain ⟨field, hf, heq⟩ := Option.map_eq_some_iff.mp hget
    exact ⟨field, hf, heq⟩
  have hstop : field.offset + field.layout.size ≤ (Layout.record parts).size :=
    Nat.le_trans (Layout.stop_le_placedEnd halign 0 field (List.mem_of_getElem? hfield))
      (le_alignTo (Layout.maxAlign_pos parts))
  have hpadded := Arg.le_paddedSize (Layout.record parts).size
  -- the slice of the field holds what the last write to each of its bytes left
  have hslice : slice? (Arg.record (Layout.record parts) args) field.offset field.layout.size =
      some arg.bytes := by
    have hlen : arg.bytes.length = field.layout.size := by rw [Arg.length_bytes, hlayout]
    refine slice?_eq_some_iff.mpr ⟨by rw [Arg.length_record]; omega, hlen, fun j hj => ?_⟩
    have hlast := Arg.lastByte_writes (Layout.apart_place halign 0) hfit hfield harg j hj
    rw [Arg.getElem?_record (by omega), Arg.image, Layout.fields_record,
      getElem?_applyWrites_of_covered, hlast]
    · rw [List.length_replicate]
      omega
    · rw [hlast, List.getElem?_eq_getElem (by omega)]
      rfl
  rw [loadArg, Layout.fields_record, hfield]
  simp only [hslice]

/-- The sources of a zip are found in the argument record. -/
theorem loadArg_zip (addresses : List UInt64) {i : Nat} {address : UInt64}
    (h : addresses[i]? = some address) :
    loadArg (Layout.zipArgs targetPointerBytes (addresses.map fun _ => .ptr)) i
      (Arg.record (Layout.zipArgs targetPointerBytes (addresses.map fun _ => .ptr))
        (addresses.map .ptr)) = .ok address := by
  have hparts : ∀ (addresses : List UInt64) (index : Nat),
      (Layout.sourceParts targetPointerBytes index (addresses.map fun _ => .ptr)).map Prod.snd =
        (addresses.map Arg.ptr).map fun arg => Layout.ofScalar 8 arg.kind := by
    intro addresses
    induction addresses with
    | nil => intro index; rfl
    | cons address rest ih =>
      intro index
      rw [List.map_cons, Layout.sourceParts, List.map_cons, ih]
      rfl
  have harg : (addresses.map Arg.ptr)[i]? = some (.ptr address) := by
    rw [List.getElem?_map, h]
    rfl
  rw [Layout.zipArgs, Layout.zipArgParts, loadArg_record (hparts addresses 0) harg]
  exact congrArg Except.ok (Layout.wordOf_toBytes address)

end Exec

end PullIter
