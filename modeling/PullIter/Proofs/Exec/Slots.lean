import PullIter.Proofs.Exec.Coverage

/-!
# The parts of an output buffer

What a kind yields is put together of what its leaves yield and of the counts of its enumerates.
Each of these has a part of the buffer to itself: the parts follow each other in memory without
overlap, and none reaches behind the layout of the yielded value.

## Main definitions

* `Owner`, `Part` — a part of a buffer, and who stores into it.
* `parts` — the parts of what a kind yields, in the order in which they lie in memory.

## Main results

* `stop_le_of_mem_parts` — every part lies within the layout of what the kind yields.
* `pairwise_parts` — the parts follow each other without overlap.
-/

namespace PullIter.Exec

/-- Who stores into a part of the buffer: a leaf, or the enumerate whose count it is. -/
inductive Owner
  | leaf (kind : Kind)
  | count
  deriving DecidableEq, Repr

/-- A part of the buffer that one leaf or one enumerate stores into. -/
structure Part where
  owner : Owner
  offset : Nat
  size : Nat
  deriving DecidableEq, Repr

namespace Part

/-- The first offset behind the part. -/
def stop (part : Part) : Nat := part.offset + part.size

/-- The same part seen from a buffer that starts `n` bytes earlier. -/
def shift (n : Nat) (part : Part) : Part := { part with offset := n + part.offset }

/-- The byte at an offset belongs to the part. -/
def Holds (part : Part) (i : Nat) : Prop := part.offset ≤ i ∧ i < part.stop

/-- A leaf stores into the part. -/
def isLeaf (part : Part) : Bool := part.owner ≠ .count

@[simp] theorem offset_shift (n : Nat) (part : Part) : (part.shift n).offset = n + part.offset := rfl

@[simp] theorem stop_shift (n : Nat) (part : Part) : (part.shift n).stop = n + part.stop := by
  simp [stop, shift, Nat.add_assoc]

@[simp] theorem isLeaf_shift (n : Nat) (part : Part) : (part.shift n).isLeaf = part.isLeaf := rfl

@[simp] theorem shift_shift (m n : Nat) (part : Part) :
    (part.shift n).shift m = part.shift (m + n) := by
  simp [shift, Nat.add_assoc]

end Part

/-- The part of a leaf is all of what it yields. -/
def leafPart (kind : Kind) : Part := ⟨.leaf kind, 0, (Entry.yieldLayout kind).size⟩

/-- The part of a count is one word. -/
def countPart : Part := ⟨.count, 0, 8⟩

mutual

/-- The parts of what a kind yields, in the order in which they lie in memory. -/
def parts : Kind → List Part
  | .enumerate source => countPart :: (parts source).map (Part.shift (payloadSlot source))
  | .zip sources => partsFrom sources (slots (.zip sources))
  | .generator name yields resume => [leafPart (.generator name yields resume)]
  | .external ext => [leafPart (.external ext)]

/-- The parts of what some sources yield, each of them in its own slot. -/
def partsFrom : List Kind → List Nat → List Part
  | kind :: kinds, slot :: slots => (parts kind).map (Part.shift slot) ++ partsFrom kinds slots
  | _, _ => []

end

/-- The parts that leaves store into. -/
def leafParts (kind : Kind) : List Part := (parts kind).filter Part.isLeaf

/-! ### The parts of a kind -/

theorem align_yieldLayout_pos (kind : Kind) : 0 < (Entry.yieldLayout kind).align :=
  Layout.align_ofType_pos (by decide) kind.yields

theorem sound_yieldLayout (kind : Kind) : Layout.Sound (Entry.yieldLayout kind) :=
  Layout.sound_ofType (by decide) kind.yields

/-- The count of an enumerate ends before what is counted, and both lie within what is yielded. -/
theorem payloadSlot_spec (source : Kind) : 8 ≤ payloadSlot source ∧
    payloadSlot source + (Entry.yieldLayout source).size ≤
      (Entry.yieldLayout (.enumerate source)).size := by
  refine ⟨le_alignTo (align_yieldLayout_pos source), ?_⟩
  obtain ⟨size, align, hlayout⟩ := yieldLayout_enumerate source
  have hsound := sound_yieldLayout (.enumerate source)
  rw [hlayout, Layout.Sound, Layout.soundFields_iff] at hsound
  rw [hlayout]
  exact (hsound _ (List.mem_cons_of_mem _ (List.mem_singleton_self _))).1

/-- Where the fields of what some sources yield end. -/
def zipEnd (start index : Nat) (kinds : List Kind) : Nat :=
  Layout.placedEnd start (Layout.tupleParts targetPointerBytes index (Kind.yieldsList kinds))

theorem zipEnd_cons (start index : Nat) (kind : Kind) (kinds : List Kind) :
    zipEnd start index (kind :: kinds) =
      zipEnd (alignTo start (Entry.yieldLayout kind).align + (Entry.yieldLayout kind).size)
        (index + 1) kinds := by
  rw [zipEnd, Kind.yieldsList, Layout.tupleParts, Layout.placedEnd_cons]
  rfl

theorem le_zipEnd (start index : Nat) (kinds : List Kind) : start ≤ zipEnd start index kinds :=
  Layout.le_placedEnd (Layout.align_tupleParts_pos (by decide)) start

theorem zipEnd_le (sources : List Kind) :
    zipEnd 0 0 sources ≤ (Entry.yieldLayout (.zip sources)).size := by
  rw [Entry.yieldLayout, Kind.yields, Layout.ofType, Layout.record, Layout.size_struct]
  exact le_alignTo (Layout.maxAlign_pos _)

mutual

/-- **Every part** lies within the layout of what the kind yields. -/
theorem stop_le_of_mem_parts : ∀ (kind : Kind), ∀ part ∈ parts kind,
    part.stop ≤ (Entry.yieldLayout kind).size
  | .enumerate source, part, hp => by
    obtain ⟨hcount, hend⟩ := payloadSlot_spec source
    rw [parts] at hp
    rcases List.mem_cons.mp hp with rfl | hp
    · simp only [countPart, Part.stop]
      omega
    · obtain ⟨inner, hi, rfl⟩ := List.mem_map.mp hp
      have hle := stop_le_of_mem_parts source inner hi
      rw [Part.stop_shift]
      omega
  | .zip sources, part, hp => by
    rw [parts, slots_zip] at hp
    exact Nat.le_trans (bounds_of_mem_partsFrom sources 0 0 part hp).2 (zipEnd_le sources)
  | .generator .., part, hp => by
    rw [parts, List.mem_singleton] at hp
    subst hp
    simp [leafPart, Part.stop]
  | .external ext, part, hp => by
    rw [parts, List.mem_singleton] at hp
    subst hp
    simp [leafPart, Part.stop]

/-- The parts of some sources lie where the fields are placed. -/
theorem bounds_of_mem_partsFrom : ∀ (kinds : List Kind) (start index : Nat),
    ∀ part ∈ partsFrom kinds ((zipFields start index kinds).map Placed.offset),
      start ≤ part.offset ∧ part.stop ≤ zipEnd start index kinds
  | [], start, index, part, hp => by simp [partsFrom] at hp
  | kind :: kinds, start, index, part, hp => by
    have halign : start ≤ alignTo start (Entry.yieldLayout kind).align :=
      le_alignTo (align_yieldLayout_pos kind)
    simp only [zipFields_cons, List.map_cons, partsFrom, List.mem_append] at hp
    rw [zipEnd_cons]
    rcases hp with hp | hp
    · obtain ⟨inner, hi, rfl⟩ := List.mem_map.mp hp
      have hle := stop_le_of_mem_parts kind inner hi
      have hend := le_zipEnd (alignTo start (Entry.yieldLayout kind).align +
        (Entry.yieldLayout kind).size) (index + 1) kinds
      rw [Part.offset_shift, Part.stop_shift]
      omega
    · have hrest := bounds_of_mem_partsFrom kinds _ _ part hp
      omega

end

/-- Parts that are moved together stay in their order. -/
theorem pairwise_shift {parts : List Part} (h : parts.Pairwise fun a b => a.stop ≤ b.offset)
    (n : Nat) : (parts.map (Part.shift n)).Pairwise fun a b => a.stop ≤ b.offset := by
  refine List.Pairwise.map _ (fun a b hab => ?_) h
  simpa using hab

mutual

/-- **The parts** follow each other without overlap. -/
theorem pairwise_parts : ∀ kind : Kind, (parts kind).Pairwise fun a b => a.stop ≤ b.offset
  | .enumerate source => by
    rw [parts, List.pairwise_cons]
    refine ⟨fun part hp => ?_, pairwise_shift (pairwise_parts source) _⟩
    obtain ⟨inner, -, rfl⟩ := List.mem_map.mp hp
    have hcount := (payloadSlot_spec source).1
    simp only [countPart, Part.stop, Part.offset_shift]
    omega
  | .zip sources => by
    rw [parts, slots_zip]
    exact pairwise_partsFrom sources 0 0
  | .generator .. => by rw [parts]; exact List.pairwise_singleton ..
  | .external ext => by rw [parts]; exact List.pairwise_singleton ..

theorem pairwise_partsFrom : ∀ (kinds : List Kind) (start index : Nat),
    (partsFrom kinds ((zipFields start index kinds).map Placed.offset)).Pairwise
      fun a b => a.stop ≤ b.offset
  | [], start, index => by simp [partsFrom]
  | kind :: kinds, start, index => by
    simp only [zipFields_cons, List.map_cons, partsFrom, List.pairwise_append]
    refine ⟨pairwise_shift (pairwise_parts kind) _, pairwise_partsFrom kinds _ _, ?_⟩
    intro part hp other ho
    obtain ⟨inner, hi, rfl⟩ := List.mem_map.mp hp
    have hle := stop_le_of_mem_parts kind inner hi
    have hrest := (bounds_of_mem_partsFrom kinds _ _ other ho).1
    rw [Part.stop_shift]
    omega

end

/-- A range beside an enumerate of another range: the count lies between the two. -/
example : parts (.zip [.range, .enumerate .range]) =
    [⟨.leaf .range, 0, 8⟩, ⟨.count, 8, 8⟩, ⟨.leaf .range, 16, 8⟩] := rfl

end PullIter.Exec
