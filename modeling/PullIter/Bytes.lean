/-!
# Bytes

Numbers in memory are little-endian, and compiled code reports what it stored as
a list of writes relative to the buffer it was given.

## Main definitions

* `toBytes n v`, `ofBytes bs` — the `n` little-endian bytes of `v`, and the number
  that bytes stand for.
* `toWords`, `ofWords` — bytes put into 64-bit words, and the bytes of words.
* `Write` — some bytes at an offset.
* `overwrite`, `applyWrites` — storing into a buffer; bytes behind its end are lost.

## Main results

* `toBytes_ofBytes` — reading and writing bytes gives the same bytes, filled up with zeros.
* `length_applyWrites` — storing keeps the length of the buffer.
-/

namespace PullIter

/-- The `n` low bytes of `v`, least significant first. -/
def toBytes : Nat → Nat → List UInt8
  | 0, _ => []
  | n + 1, v => UInt8.ofNat v :: toBytes n (v / 256)

/-- The number whose bytes these are, least significant first. -/
def ofBytes : List UInt8 → Nat
  | [] => 0
  | b :: bs => b.toNat + 256 * ofBytes bs

@[simp] theorem toBytes_zero (v : Nat) : toBytes 0 v = [] := rfl

@[simp] theorem toBytes_succ (n v : Nat) :
    toBytes (n + 1) v = UInt8.ofNat v :: toBytes n (v / 256) := rfl

@[simp] theorem ofBytes_nil : ofBytes [] = 0 := rfl

@[simp] theorem ofBytes_cons (b : UInt8) (bs : List UInt8) :
    ofBytes (b :: bs) = b.toNat + 256 * ofBytes bs := rfl

@[simp] theorem length_toBytes (n v : Nat) : (toBytes n v).length = n := by
  induction n generalizing v with
  | zero => rfl
  | succ n ih => simp [ih]

/-- **Reading and writing** bytes gives the same bytes, filled up with zeros. -/
theorem toBytes_ofBytes {bytes : List UInt8} {n : Nat} (h : bytes.length ≤ n) :
    toBytes n (ofBytes bytes) = bytes ++ List.replicate (n - bytes.length) 0 := by
  induction n generalizing bytes with
  | zero =>
    obtain rfl := List.length_eq_zero_iff.mp (Nat.le_zero.mp h)
    rfl
  | succ n ih =>
    cases bytes with
    | nil =>
      have hzero := @ih [] (Nat.zero_le _)
      rw [ofBytes_nil] at hzero
      rw [toBytes_succ, ofBytes_nil, Nat.zero_div, hzero]
      rfl
    | cons b bytes =>
      rw [List.length_cons] at h
      have hb := b.toNat_lt
      have hmod : UInt8.ofNat (b.toNat + 256 * ofBytes bytes) = b := by
        apply UInt8.toNat_inj.mp
        rw [UInt8.toNat_ofNat']
        omega
      have hdiv : (b.toNat + 256 * ofBytes bytes) / 256 = ofBytes bytes := by omega
      rw [toBytes_succ, ofBytes_cons, hmod, hdiv, ih (by omega), List.length_cons,
        Nat.add_sub_add_right, List.cons_append]

/-! ### Words -/

/-- The number that bytes hold, as a 64-bit word. -/
def wordOf (bytes : List UInt8) : UInt64 := UInt64.ofNat (ofBytes bytes)

/-- The number of words that hold some bytes.  Even no bytes at all take one word, so that they
have an address. -/
def wordCount (size : Nat) : Nat := max 1 ((size + 7) / 8)

/-- Bytes put into words, eight by eight.  What is missing of the last word counts as zero. -/
def toWords (bytes : List UInt8) : List UInt64 :=
  (List.range (wordCount bytes.length)).map fun i => wordOf ((bytes.drop (8 * i)).take 8)

/-- The bytes of words, in their order. -/
def ofWords (words : List UInt64) : List UInt8 := words.flatMap fun word => toBytes 8 word.toNat

@[simp] theorem length_toWords (bytes : List UInt8) :
    (toWords bytes).length = wordCount bytes.length := by
  simp [toWords]

@[simp] theorem length_ofWords (words : List UInt64) :
    (ofWords words).length = 8 * words.length := by
  induction words with
  | nil => rfl
  | cons word words ih =>
    rw [ofWords, List.flatMap_cons, List.length_append, length_toBytes, List.length_cons,
      ← ofWords, ih]
    omega

/-! ### Buffers -/

/-- Bytes stored at an offset of the buffer that compiled code was given. -/
structure Write where
  offset : Nat
  bytes : List UInt8
  deriving DecidableEq, Repr

namespace Write

/-- The same write seen from a buffer that starts `n` bytes earlier. -/
def shift (n : Nat) (w : Write) : Write := { w with offset := n + w.offset }

/-- The first offset behind the write. -/
def stop (w : Write) : Nat := w.offset + w.bytes.length

@[simp] theorem offset_shift (n : Nat) (w : Write) : (w.shift n).offset = n + w.offset := rfl

@[simp] theorem bytes_shift (n : Nat) (w : Write) : (w.shift n).bytes = w.bytes := rfl

@[simp] theorem stop_shift (n : Nat) (w : Write) : (w.shift n).stop = n + w.stop := by
  simp [stop, Nat.add_assoc]

end Write

/-- The buffer with `bytes` at `offset`.  The rest stays, and bytes behind the end of the
buffer are lost. -/
def overwrite (buffer : List UInt8) (w : Write) : List UInt8 :=
  (buffer.take w.offset ++ w.bytes ++ buffer.drop w.stop).take buffer.length

/-- Store one write after the other. -/
def applyWrites (buffer : List UInt8) (ws : List Write) : List UInt8 := ws.foldl overwrite buffer

@[simp] theorem applyWrites_nil (buffer : List UInt8) : applyWrites buffer [] = buffer := rfl

@[simp] theorem applyWrites_cons (buffer : List UInt8) (w : Write) (ws : List Write) :
    applyWrites buffer (w :: ws) = applyWrites (overwrite buffer w) ws := rfl

theorem applyWrites_append (buffer : List UInt8) (ws ws' : List Write) :
    applyWrites buffer (ws ++ ws') = applyWrites (applyWrites buffer ws) ws' :=
  List.foldl_append ..

/-- A write that stays within the buffer is stored whole. -/
theorem overwrite_of_stop_le {buffer : List UInt8} {w : Write} (h : w.stop ≤ buffer.length) :
    overwrite buffer w = buffer.take w.offset ++ w.bytes ++ buffer.drop w.stop := by
  simp only [Write.stop] at h
  apply List.take_of_length_le
  simp only [List.length_append, List.length_take, List.length_drop, Write.stop]
  omega

@[simp] theorem length_overwrite (buffer : List UInt8) (w : Write) :
    (overwrite buffer w).length = buffer.length := by
  simp only [overwrite, List.length_append, List.length_take, List.length_drop, Write.stop]
  omega

/-- Storing keeps the length of the buffer. -/
@[simp] theorem length_applyWrites (buffer : List UInt8) (ws : List Write) :
    (applyWrites buffer ws).length = buffer.length := by
  induction ws generalizing buffer with
  | nil => rfl
  | cons w ws ih => rw [applyWrites_cons, ih, length_overwrite]

/-- The `size` bytes at `offset`, if they are all there. -/
def slice? (bytes : List UInt8) (offset size : Nat) : Option (List UInt8) :=
  if offset + size ≤ bytes.length then some ((bytes.drop offset).take size) else none

end PullIter
