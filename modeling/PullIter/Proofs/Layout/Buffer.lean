import Mathlib.Algebra.Group.Nat.Defs
import PullIter.Bytes

/-!
# What a buffer holds after some writes

Of the writes to a byte the last one counts, and a byte that no write covers stays what it was.
So the bytes that are covered do not depend on what the buffer held before.

## Main definitions

* `Write.Covers` — the write stores a byte at an offset.
* `lastByte` — the byte that some writes leave at an offset.

## Main results

* `ofBytes_toBytes` — writing and reading a number keeps its low bytes.
* `getElem?_applyWrites` — each byte of the buffer after some writes.
* `lastByte_append`, `lastByte_shift` — composing writes.
* `drop_applyWrites_shift` — storing into a buffer that begins at an offset of memory.
* `slice?_eq_some_iff` — what lies at an offset of a buffer, byte by byte.
-/

namespace PullIter

/-! ### Numbers -/

/-- **Writing and reading** a number in `n` bytes keeps it modulo `256 ^ n`. -/
theorem ofBytes_toBytes (n v : Nat) : ofBytes (toBytes n v) = v % 256 ^ n := by
  induction n generalizing v with
  | zero => simp [Nat.mod_one]
  | succ n ih =>
    have hpow : 256 ^ (n + 1) = 256 * 256 ^ n := by rw [Nat.pow_succ, Nat.mul_comm]
    rw [toBytes_succ, ofBytes_cons, ih, UInt8.toNat_ofNat', hpow, Nat.mod_mul]

/-- Bytes stand for a number below the next power of 256. -/
theorem ofBytes_lt (bs : List UInt8) : ofBytes bs < 256 ^ bs.length := by
  induction bs with
  | nil => simp
  | cons b bs ih =>
    have hb := b.toNat_lt
    rw [ofBytes_cons, List.length_cons, Nat.pow_succ]
    omega

/-! ### Words -/

/-- A number that fits into its bytes is read from them as a word. -/
theorem wordOf_toBytes_of_lt {n v : Nat} (h : v < 256 ^ n) :
    wordOf (toBytes n v) = UInt64.ofNat v := by
  rw [wordOf, ofBytes_toBytes, Nat.mod_eq_of_lt h]

/-- The bytes of a word that holds at most eight bytes. -/
theorem toBytes_wordOf {bytes : List UInt8} (h : bytes.length ≤ 8) :
    toBytes 8 (wordOf bytes).toNat = bytes ++ List.replicate (8 - bytes.length) 0 := by
  have hlt : ofBytes bytes < 2 ^ 64 :=
    Nat.lt_of_lt_of_le (ofBytes_lt bytes) (Nat.pow_le_pow_right (n := 256) (by decide) h)
  rw [wordOf, UInt64.toNat_ofNat_of_lt' hlt, toBytes_ofBytes h]

/-- Eight bytes at a time are put into words, and the last word is filled up with zeros. -/
theorem flatMap_words {n : Nat} {bytes : List UInt8} (h : bytes.length ≤ 8 * n) :
    ((List.range n).flatMap fun i => toBytes 8 (wordOf ((bytes.drop (8 * i)).take 8)).toNat) =
      bytes ++ List.replicate (8 * n - bytes.length) 0 := by
  induction n generalizing bytes with
  | zero =>
    obtain rfl := List.length_eq_zero_iff.mp (Nat.le_zero.mp h)
    rfl
  | succ n ih =>
    have htail := @ih (bytes.drop 8) (by rw [List.length_drop]; omega)
    have hhead := @toBytes_wordOf (bytes.take 8) (by rw [List.length_take]; omega)
    have hshift : ∀ i, (bytes.drop (8 * (i + 1))).take 8 = ((bytes.drop 8).drop (8 * i)).take 8 := by
      intro i
      rw [List.drop_drop, Nat.mul_succ, Nat.add_comm]
    rw [List.range_succ_eq_map, List.flatMap_cons, List.flatMap_map]
    simp only [Nat.succ_eq_add_one, hshift, htail, Nat.mul_zero, List.drop_zero, hhead]
    rcases Nat.le_total 8 bytes.length with hlong | hshort
    · have htake : (bytes.take 8).length = 8 := by rw [List.length_take]; omega
      rw [htake, Nat.sub_self, List.replicate_zero, List.append_nil, ← List.append_assoc,
        List.take_append_drop, List.length_drop]
      congr 2
      omega
    · rw [List.take_of_length_le hshort, List.drop_of_length_le hshort, List.nil_append,
        List.append_assoc, List.replicate_append_replicate, List.length_nil]
      congr 2
      omega

/-- **Putting bytes into words** fills them up with zeros. -/
theorem ofWords_toWords (bytes : List UInt8) : ofWords (toWords bytes) =
    bytes ++ List.replicate (8 * wordCount bytes.length - bytes.length) 0 := by
  rw [ofWords, toWords, List.flatMap_map]
  exact flatMap_words (by unfold wordCount; omega)

/-! ### Writes -/

namespace Write

/-- The write stores a byte at an offset. -/
def Covers (w : Write) (i : Nat) : Prop := w.offset ≤ i ∧ i < w.stop

instance (w : Write) (i : Nat) : Decidable (w.Covers i) := by
  unfold Covers
  infer_instance

/-- The byte that the write stores at an offset. -/
def byte? (w : Write) (i : Nat) : Option UInt8 :=
  if w.offset ≤ i then w.bytes[i - w.offset]? else none

theorem isSome_byte? (w : Write) (i : Nat) : (w.byte? i).isSome ↔ w.Covers i := by
  unfold byte? Covers stop
  split
  · rw [Option.isSome_iff_ne_none, ne_eq, List.getElem?_eq_none_iff]
    omega
  · simp only [Option.isSome_none, Bool.false_eq_true, false_iff]
    omega

theorem byte?_of_not_covers {w : Write} {i : Nat} (h : ¬w.Covers i) : w.byte? i = none := by
  rw [← Option.not_isSome_iff_eq_none, isSome_byte?]
  exact h

theorem byte?_shift (w : Write) (n i : Nat) :
    (w.shift n).byte? i = if n ≤ i then w.byte? (i - n) else none := by
  unfold byte?
  rw [offset_shift, bytes_shift]
  by_cases hn : n ≤ i
  · rw [if_pos hn]
    by_cases ho : n + w.offset ≤ i
    · rw [if_pos ho, if_pos (by omega), Nat.sub_add_eq]
    · rw [if_neg ho, if_neg (by omega)]
  · rw [if_neg hn, if_neg (by omega)]

end Write

/-- The byte that some writes leave at an offset, if one of them covers it. -/
def lastByte : List Write → Nat → Option UInt8
  | [], _ => none
  | w :: ws, i => (lastByte ws i).or (w.byte? i)

@[simp] theorem lastByte_nil (i : Nat) : lastByte [] i = none := rfl

@[simp] theorem lastByte_cons (w : Write) (ws : List Write) (i : Nat) :
    lastByte (w :: ws) i = (lastByte ws i).or (w.byte? i) := rfl

theorem lastByte_append (ws ws' : List Write) (i : Nat) :
    lastByte (ws ++ ws') i = (lastByte ws' i).or (lastByte ws i) := by
  induction ws with
  | nil => simp
  | cons w ws ih => rw [List.cons_append, lastByte_cons, ih, lastByte_cons, Option.or_assoc]

theorem lastByte_shift (ws : List Write) (n i : Nat) :
    lastByte (ws.map (Write.shift n)) i = if n ≤ i then lastByte ws (i - n) else none := by
  induction ws with
  | nil => simp
  | cons w ws ih =>
    rw [List.map_cons, lastByte_cons, ih, Write.byte?_shift, lastByte_cons]
    split <;> simp

theorem isSome_lastByte (ws : List Write) (i : Nat) :
    (lastByte ws i).isSome ↔ ∃ w ∈ ws, w.Covers i := by
  induction ws with
  | nil => simp
  | cons w ws ih =>
    rw [lastByte_cons, Option.isSome_or, Bool.or_eq_true, ih, Write.isSome_byte?]
    simp only [List.mem_cons, exists_eq_or_imp]
    exact Or.comm

/-- Writes that do not cover an offset leave nothing there. -/
theorem lastByte_eq_none {ws : List Write} {i : Nat} (h : ∀ w ∈ ws, ¬w.Covers i) :
    lastByte ws i = none := by
  rw [← Option.not_isSome_iff_eq_none, isSome_lastByte]
  rintro ⟨w, hw, hc⟩
  exact h w hw hc

/-! ### Buffers -/

theorem getElem?_overwrite {buffer : List UInt8} {i : Nat} (h : i < buffer.length) (w : Write) :
    (overwrite buffer w)[i]? = (w.byte? i).or buffer[i]? := by
  unfold overwrite Write.byte? Write.stop
  rw [List.getElem?_take_of_lt h]
  by_cases ho : w.offset ≤ i
  · have htake : (buffer.take w.offset).length = w.offset := by
      rw [List.length_take]
      omega
    rw [if_pos ho, List.append_assoc, List.getElem?_append_right (by omega), htake]
    by_cases hb : i - w.offset < w.bytes.length
    · rw [List.getElem?_append_left hb, List.getElem?_eq_getElem hb]
      rfl
    · rw [List.getElem?_append_right (by omega), List.getElem?_drop,
        List.getElem?_eq_none (Nat.le_of_not_lt hb)]
      simp only [Option.none_or]
      congr 1
      omega
  · have hlt : i < (buffer.take w.offset).length := by
      rw [List.length_take]
      omega
    rw [if_neg ho, List.append_assoc, List.getElem?_append_left hlt,
      List.getElem?_take_of_lt (by omega)]
    rfl

/-- **Each byte of a buffer** after some writes. -/
theorem getElem?_applyWrites {buffer : List UInt8} {i : Nat} (h : i < buffer.length)
    (ws : List Write) : (applyWrites buffer ws)[i]? = (lastByte ws i).or buffer[i]? := by
  induction ws generalizing buffer with
  | nil => rfl
  | cons w ws ih =>
    rw [applyWrites_cons, ih (by rwa [length_overwrite]), getElem?_overwrite h, lastByte_cons,
      Option.or_assoc]

/-- What is stored into a buffer that begins at an offset of memory is stored into what memory
holds from there on. -/
theorem drop_overwrite_shift (memory : List UInt8) (out : Nat) (w : Write) :
    (overwrite memory (w.shift out)).drop out = overwrite (memory.drop out) w := by
  apply List.ext_getElem?
  intro i
  rw [List.getElem?_drop]
  by_cases hi : out + i < memory.length
  · have hin : i < (memory.drop out).length := by
      rw [List.length_drop]
      omega
    rw [getElem?_overwrite hi, getElem?_overwrite hin, Write.byte?_shift,
      if_pos (Nat.le_add_right ..), Nat.add_sub_cancel_left, List.getElem?_drop]
  · rw [List.getElem?_eq_none (by rw [length_overwrite]; omega),
      List.getElem?_eq_none (by rw [length_overwrite, List.length_drop]; omega)]

theorem drop_applyWrites_shift (memory : List UInt8) (out : Nat) (ws : List Write) :
    (applyWrites memory (ws.map (Write.shift out))).drop out =
      applyWrites (memory.drop out) ws := by
  induction ws generalizing memory with
  | nil => rfl
  | cons w ws ih => rw [List.map_cons, applyWrites_cons, ih, drop_overwrite_shift, applyWrites_cons]

/-- Some bytes lie at an offset if the buffer holds each of them there. -/
theorem slice?_eq_some_iff {bytes part : List UInt8} {offset size : Nat} :
    slice? bytes offset size = some part ↔
      offset + size ≤ bytes.length ∧ part.length = size ∧
        ∀ i < size, bytes[offset + i]? = part[i]? := by
  rw [slice?]
  constructor
  · intro h
    split at h
    · next hle =>
      cases h
      refine ⟨hle, by rw [List.length_take, List.length_drop]; omega, fun i hi => ?_⟩
      rw [List.getElem?_take_of_lt hi, List.getElem?_drop]
    · cases h
  · rintro ⟨hle, rfl, h⟩
    rw [if_pos hle, Option.some.injEq]
    apply List.ext_getElem?
    intro i
    by_cases hi : i < part.length
    · rw [List.getElem?_take_of_lt hi, List.getElem?_drop, h i hi]
    · rw [List.getElem?_eq_none (by rw [List.length_take]; omega),
        List.getElem?_eq_none (Nat.le_of_not_lt hi)]

/-- A covered byte does not depend on what the buffer held before. -/
theorem getElem?_applyWrites_of_covered {buffer : List UInt8} {i : Nat} (h : i < buffer.length)
    {ws : List Write} (hc : (lastByte ws i).isSome) :
    (applyWrites buffer ws)[i]? = lastByte ws i := by
  rw [getElem?_applyWrites h]
  cases hl : lastByte ws i with
  | none => rw [hl] at hc; cases hc
  | some b => rfl

end PullIter
