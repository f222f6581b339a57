import Mathlib.Data.List.Pairwise
import PullIter.Proofs.Exec.Memory
import PullIter.Proofs.Exec.Runtime

/-!
# What a step does to its buffer

A step keeps to the buffer that it is given, if its leaves keep to the slots that they are given:
these are apart from each other and from all counts.  If moreover the leaves store whole values
and do not look at memory, then nothing that the buffer held before shows in what is read from it.

## Main definitions

* `Disciplined` — a step keeps to its buffer.
* `Alike` — two steps end in the same way, and with the same value.
* `decoded`, `shown` — the value and the outcome of a step, whatever the buffer held.

## Main results

* `slots_leafParts` — there is one slot for each leaf.
* `disciplined_nextIn` — **a step keeps to its buffer.**
* `alike_nextIn` — **nothing stale shows.**
* `confined_of_builtIn` — built-in objects keep to their slots.
-/

namespace PullIter.Exec

/-! ### Slots -/

/-- Two parts have no byte in common. -/
def Part.Apart (a b : Part) : Prop := a.stop ≤ b.offset ∨ b.stop ≤ a.offset

instance : Std.Symm Part.Apart := ⟨fun _ _ h => Or.symm h⟩

theorem Part.Apart.shift {a b : Part} (h : a.Apart b) (n : Nat) : (a.shift n).Apart (b.shift n) := by
  simpa [Part.Apart] using h

/-- The parts that counts are stored into. -/
def countParts (kind : Kind) : List Part := (parts kind).filter fun part => !part.isLeaf

theorem apart_parts (kind : Kind) : (parts kind).Pairwise Part.Apart :=
  (pairwise_parts kind).imp Or.inl

/-- The part of a leaf is apart from the parts of counts. -/
theorem apart_of_mem_leafParts {kind : Kind} {part count : Part} (hp : part ∈ leafParts kind)
    (hc : count ∈ countParts kind) : part.Apart count := by
  obtain ⟨hp, hleaf⟩ := List.mem_filter.mp hp
  obtain ⟨hc, hcount⟩ := List.mem_filter.mp hc
  refine (apart_parts kind).forall hp hc ?_
  rintro rfl
  rw [hleaf] at hcount
  cases hcount

/-- The slot of a leaf: whose it is, and how long. -/
def leafSlot (leaf : Kind) : Owner × Nat := (.leaf leaf, (Entry.yieldLayout leaf).size)

/-- Whose a part is, and how long it is, does not depend on where it lies. -/
theorem map_slot_shift (n : Nat) (parts : List Part) :
    (parts.map (Part.shift n)).map (fun part => (part.owner, part.size)) =
      parts.map fun part => (part.owner, part.size) := by
  rw [List.map_map]
  rfl

mutual

/-- **There is one slot for each leaf**, of the size of what the leaf yields. -/
theorem slots_leafParts : ∀ kind : Kind,
    (leafParts kind).map (fun part => (part.owner, part.size)) = kind.leafKinds.map leafSlot
  | .enumerate source => by
    rw [leafParts_enumerate, map_slot_shift, slots_leafParts source, Kind.leafKinds]
  | .zip sources => by
    rw [leafParts, parts, slots_zip, Kind.leafKinds]
    exact slots_leafPartsFrom sources 0 0
  | .generator name yields resume => by rw [leafParts, parts, Kind.leafKinds]; rfl
  | .external ext => by rw [leafParts, parts, Kind.leafKinds]; rfl

theorem slots_leafPartsFrom : ∀ (kinds : List Kind) (start index : Nat),
    (leafPartsFrom kinds ((zipFields start index kinds).map Placed.offset)).map
      (fun part => (part.owner, part.size)) = (Kind.leafKindsList kinds).map leafSlot
  | [], start, index => by rw [leafPartsFrom, partsFrom_nil, Kind.leafKindsList]; rfl
  | kind :: kinds, start, index => by
    rw [zipFields_cons, List.map_cons, leafPartsFrom_cons, List.map_append, map_slot_shift,
      slots_leafParts kind, slots_leafPartsFrom kinds, Kind.leafKindsList, List.map_append]

end

/-- A step in memory keeps to its buffer. -/
structure Disciplined (leaves : Leaves) (kind : Kind) (iterator : UInt64) (out : Nat)
    (memory : List UInt8) (store : Store) : Prop where
  /-- There is one slot for each leaf, of the size of what the leaf yields. -/
  slots : (leafParts kind).map (fun part => (part.owner, part.size)) = kind.leafKinds.map leafSlot
  /-- The leaves are given the slots in order, up to the first leaf that fails. -/
  hands : Hands (callsIn leaves kind iterator out memory store)
    (nextIn leaves kind iterator out memory store) ((leafParts kind).map (Part.shift out))
  /-- Every slot lies in the buffer, .. -/
  within : ∀ call ∈ callsIn leaves kind iterator out memory store,
    out ≤ call.part.offset ∧ call.part.stop ≤ out + (Entry.yieldLayout kind).size
  /-- .. apart from the other slots .. -/
  apart : ((callsIn leaves kind iterator out memory store).map MemoryCall.part).Pairwise Part.Apart
  /-- .. and from the counts. -/
  counts : ∀ call ∈ callsIn leaves kind iterator out memory store, ∀ count ∈ countParts kind,
    call.part.Apart (count.shift out)
  /-- Leaves that keep to their slots let the step keep to its parts .. -/
  parts : (∀ call ∈ callsIn leaves kind iterator out memory store, call.Confined leaves) →
    ∀ stored, nextIn leaves kind iterator out memory store = .ok stored →
      SameOutside ((parts kind).map (Part.shift out)) memory stored.memory
  /-- .. and so to its buffer. -/
  buffer : (∀ call ∈ callsIn leaves kind iterator out memory store, call.Confined leaves) →
    ∀ stored, nextIn leaves kind iterator out memory store = .ok stored →
      stored.memory.length = memory.length ∧
      ∀ i, i < out ∨ out + (Entry.yieldLayout kind).size ≤ i → stored.memory[i]? = memory[i]?

/-- A slot that a leaf is given is the part of a leaf. -/
theorem exists_leafPart {leaves : Leaves} {kind : Kind} {iterator : UInt64} {out : Nat}
    {memory : List UInt8} {store : Store} {call : MemoryCall}
    (hc : call ∈ callsIn leaves kind iterator out memory store) :
    ∃ part ∈ leafParts kind, call.part = part.shift out := by
  have hm := (callsIn_parts leaves kind iterator out memory store).isPrefix.subset
    (List.mem_map_of_mem hc)
  obtain ⟨part, hp, heq⟩ := List.mem_map.mp hm
  exact ⟨part, hp, heq.symm⟩

/-- **A step keeps to its buffer.** -/
theorem disciplined_nextIn (leaves : Leaves) (kind : Kind) (iterator : UInt64) (out : Nat)
    (memory : List UInt8) (store : Store) :
    Disciplined leaves kind iterator out memory store where
  slots := slots_leafParts kind
  hands := callsIn_parts leaves kind iterator out memory store
  within := by
    intro call hc
    obtain ⟨part, hp, heq⟩ := exists_leafPart hc
    have hle := stop_le_of_mem_parts kind part (List.mem_filter.mp hp).1
    rw [heq, Part.offset_shift, Part.stop_shift]
    omega
  apart := by
    have hgiven : ((leafParts kind).map (Part.shift out)).Pairwise Part.Apart :=
      List.Pairwise.map _ (fun _ _ h => h.shift out) ((apart_parts kind).filter _)
    -- a step that fails asks nothing of the leaves behind the one that failed
    exact hgiven.sublist (callsIn_parts leaves kind iterator out memory store).isPrefix.sublist
  counts := by
    intro call hc count hm
    obtain ⟨part, hp, heq⟩ := exists_leafPart hc
    rw [heq]
    exact (apart_of_mem_leafParts hp hm).shift out
  parts := fun hc _ hs => frame_nextIn hc hs
  buffer := fun hc _ hs => ⟨(frame_nextIn hc hs).length, fun _ hi => getElem?_nextIn hc hs hi⟩

/-! ### Nothing stale -/

/-- The value that some writes leave in a cleared buffer. -/
def decoded (kind : Kind) (ws : List Write) : Value :=
  let layout := Entry.yieldLayout kind
  match layout.read (applyWrites (List.replicate layout.size 0) ws) with
  | .ok (some value) => value
  | _ => default

/-- Writes that store all scalars leave their value in every buffer. -/
theorem read_eq_decoded {kind : Kind} {ws : List Write}
    (hc : (Entry.yieldLayout kind).Covers ws) {buffer : List UInt8}
    (h : (Entry.yieldLayout kind).size ≤ buffer.length) :
    (Entry.yieldLayout kind).read (applyWrites buffer ws) = .ok (some (decoded kind ws)) := by
  have hsound := sound_yieldLayout kind
  have hcleared : (Entry.yieldLayout kind).size ≤
      (List.replicate (Entry.yieldLayout kind).size (0 : UInt8)).length := by
    simp
  obtain ⟨value, hv⟩ := Layout.exists_read hsound
    (applyWrites (List.replicate (Entry.yieldLayout kind).size 0) ws) (by rwa [length_applyWrites])
  -- what was covered reads the same from any two buffers, one of which is the cleared one
  rw [Layout.read_applyWrites hsound hc h hcleared, decoded, hv]

/-- What a step shows: its outcome, and the store after it. -/
def shown (link : Linkage) (kind : Kind) (iterator : UInt64) (store : Store) :
    Except Fault (Outcome × Store) :=
  (next link kind iterator store).map fun step =>
    (Outcome.ofStatus step.status fun () => decoded kind step.writes, step.store)

/-- Two steps in memory end alike: with the same fault, or with the same status and the same
store, and if they have a value, then the same value is read from both buffers. -/
def Alike (layout : Layout) (out out' : Nat) : Except Fault Stored → Except Fault Stored → Prop
  | .error fault, .error fault' => fault = fault'
  | .ok left, .ok right => left.status = right.status ∧ left.store = right.store ∧
      (left.status = Status.ok → ∃ value, layout.read (left.memory.drop out) = .ok (some value) ∧
        layout.read (right.memory.drop out') = .ok (some value))
  | _, _ => False

/-- **Nothing stale shows.**  Where leaves store whole values, and do not look at memory, two steps
from the same store end alike, whatever their buffers held. -/
theorem alike_nextIn {link : Linkage} {kind : Kind} {iterator : UInt64} {store : Store}
    (hc : ∀ call ∈ leafCalls link kind iterator store, call.Covers link) {out out' : Nat}
    {memory memory' : List UInt8} (h : out + (Entry.yieldLayout kind).size ≤ memory.length)
    (h' : out' + (Entry.yieldLayout kind).size ≤ memory'.length) :
    Alike (Entry.yieldLayout kind) out out'
      (nextIn link.leaves kind iterator out memory store)
      (nextIn link.leaves kind iterator out' memory' store) := by
  rw [nextIn_leaves, nextIn_leaves]
  cases hs : next link kind iterator store with
  | error fault => rfl
  | ok step =>
    refine ⟨rfl, rfl, fun hok => ⟨decoded kind step.writes, ?_⟩⟩
    have hcov := covers_next hc hs hok
    simp only [Step.storedAt, drop_applyWrites_shift]
    constructor
    · exact read_eq_decoded hcov (by rw [List.length_drop]; omega)
    · exact read_eq_decoded hcov (by rw [List.length_drop]; omega)

/-! ### Built-in objects -/

/-- A word that is stored at the start of a slot of eight bytes stays in the slot. -/
theorem sameOutside_word (value : Int64) (part : Part) (hsize : part.size = 8)
    (memory : List UInt8) :
    SameOutside [part] memory (overwrite memory ((Write.word value).shift part.offset)) where
  length := length_overwrite ..
  byte := by
    intro i hi
    refine getElem?_overwrite_of_not_covers fun hcov => hi part (List.mem_singleton_self _) ?_
    have hstop : (Write.word value).stop = 8 := by simp [Write.stop, Write.word]
    have hoffset : (Write.word value).offset = 0 := rfl
    unfold Write.Covers at hcov
    rw [Write.offset_shift, Write.stop_shift, hstop, hoffset] at hcov
    unfold Part.Holds Part.stop
    omega

/-- **Built-in objects keep to their slots.** -/
theorem confined_of_builtIn {unit : Compiled} (h : unit.RunsRuntime) {call : MemoryCall}
    (hb : BuiltIn call.kind) : call.Confined unit.provided.leaves := by
  intro stored hs
  rw [nextIn_leaves] at hs
  cases hn : next unit.provided call.kind call.iterator call.store with
  | error fault => rw [hn] at hs; cases hs
  | ok step =>
    rw [hn] at hs
    cases hs
    have hsize : call.part.size = 8 := by
      show (Entry.yieldLayout call.kind).size = 8
      rw [hb.yieldLayout]
      rfl
    rcases hb.storesWord h hn with ⟨value, hwrites⟩ | ⟨-, hwrites⟩
    · simp only [Step.storedAt, hwrites]
      exact sameOutside_word value call.part hsize call.memory
    · simp only [Step.storedAt, hwrites]
      exact SameOutside.refl _ _

/-- A step in memory calls leaves of its kind only. -/
theorem kind_mem_leafKinds_of_callsIn {leaves : Leaves} {kind : Kind} {iterator : UInt64} {out : Nat}
    {memory : List UInt8} {store : Store} {call : MemoryCall}
    (hc : call ∈ callsIn leaves kind iterator out memory store) : call.kind ∈ kind.leafKinds := by
  obtain ⟨part, hp, heq⟩ := exists_leafPart hc
  have hm : (part.owner, part.size) ∈ kind.leafKinds.map leafSlot := by
    rw [← slots_leafParts]
    exact List.mem_map_of_mem hp
  obtain ⟨leaf, hleaf, hslot⟩ := List.mem_map.mp hm
  have howner : call.part.owner = part.owner := by rw [heq]; rfl
  have hcall : Owner.leaf call.kind = Owner.leaf leaf :=
    howner.trans (congrArg Prod.fst hslot).symm
  cases hcall
  exact hleaf

end PullIter.Exec
