import PullIter.Proofs.Exec.Slots

/-!
# Steps that store into memory

A step reports what it stores relative to the buffer that it was given.  Here a step runs in
memory: every leaf is told where its slot begins, may read whatever memory holds, and leaves
memory as it likes.  Where leaves do not look at memory both are the same.

## Main definitions

* `Leaves` — what symbols do that advance iterators, in memory.
* `nextIn` — a step in memory.
* `MemoryCall`, `callsIn` — the calls of leaves that a step makes, with the slots they are given.
* `MemoryCall.Confined` — a call that changes its own slot only.

## Main results

* `nextIn_leaves` — leaves that do not look at memory make the steps of `Exec.next`.
* `callsIn_parts` — the slots that leaves are given are the parts of what the kind yields.
* `frame_nextIn` — a step changes its parts of memory only, if its leaves do.
-/

namespace PullIter

/-- What a step in memory ends with. -/
structure Stored where
  status : Status
  memory : List UInt8
  store : Store

/-- What a step leaves in memory, if its buffer begins at an offset of it. -/
def Step.storedAt (out : Nat) (memory : List UInt8) (step : Step) : Stored :=
  ⟨step.status, applyWrites memory (step.writes.map (Write.shift out)), step.store⟩

/-- What symbols do that advance iterators: they are given the iterator, memory, and the offset at
which they are to store. -/
abbrev Leaves := String → UInt64 → Nat → List UInt8 → Store → Except Fault Stored

/-- Symbols that do not look at memory. -/
def Linkage.leaves (link : Linkage) : Leaves := fun symbol iterator out memory store =>
  (link.next symbol iterator store).map (Step.storedAt out memory)

namespace Exec

/-! ### Steps -/

/-- An enumerate stores its count beside a value, and not otherwise. -/
def countedIn (count : Int64) (out : Nat) (stored : Stored) : Stored :=
  { stored with
    memory := if stored.status = Status.ok
      then overwrite stored.memory ((Write.word count).shift out) else stored.memory }

mutual

/-- Advance the iterator that `getiter` makes of a value of the kind, and store what it yields from
an offset of memory on. -/
def nextIn (leaves : Leaves) : Kind → UInt64 → Nat → List UInt8 → Store → Except Fault Stored
  | .enumerate source, state, out, memory, store =>
    match store.blockAt state with
    | .error fault => .error fault
    | .ok (block, words) =>
      let count := words.peek Layout.countIndex
      let moved := store.set state (.block block (words.poke Layout.countIndex (count + 1)))
      (nextIn leaves source (words.peek Layout.sourceIndex) (out + payloadSlot source) memory
        moved).map (countedIn count.toInt64 out)
  | .zip [], _, _, memory, store => .ok ⟨Status.stop, memory, store⟩
  | .zip (source :: sources), state, out, memory, store =>
    nextRoundIn leaves (source :: sources) state 0 out (slots (.zip (source :: sources))) true memory
      store
  | .generator _ _ resume, handle, out, memory, store => leaves resume handle out memory store
  | .external (.iterator _ _ symbol _), iterator, out, memory, store
  | .external (.iterable _ _ _ (.iterator _ _ symbol _)), iterator, out, memory, store =>
    leaves symbol iterator out memory store
  | .external (.iterable _ _ _ (.iterable name ..)), _, _, _, _ => .error (.noCode name)

/-- One round over the sources of a zip from an index on, each of which stores into its slot. -/
def nextRoundIn (leaves : Leaves) : List Kind → UInt64 → Nat → Nat → List Nat → Bool →
    List UInt8 → Store → Except Fault Stored
  | kind :: kinds, state, index, out, slot :: slots, valid, memory, store =>
    match store.peek state index with
    | .error fault => .error fault
    | .ok iterator =>
      match nextIn leaves kind iterator (out + slot) memory store with
      | .error fault => .error fault
      | .ok stored =>
        if stored.status.isFailure then .ok stored
        else
          nextRoundIn leaves kinds state (index + 1) out slots
            (valid && stored.status = Status.ok) stored.memory stored.store
  | _, _, _, _, _, valid, memory, store =>
    .ok ⟨if valid then Status.ok else Status.stop, memory, store⟩

end

/-- A leaf that is asked for a step in memory, with the slot that it is given. -/
structure MemoryCall where
  kind : Kind
  iterator : UInt64
  out : Nat
  memory : List UInt8
  store : Store

mutual

/-- The calls of leaves that a step makes, in order. -/
def callsIn (leaves : Leaves) : Kind → UInt64 → Nat → List UInt8 → Store → List MemoryCall
  | .enumerate source, state, out, memory, store =>
    match store.blockAt state with
    | .error _ => []
    | .ok (block, words) =>
      let count := words.peek Layout.countIndex
      let moved := store.set state (.block block (words.poke Layout.countIndex (count + 1)))
      callsIn leaves source (words.peek Layout.sourceIndex) (out + payloadSlot source) memory moved
  | .zip sources, state, out, memory, store =>
    callsInFrom leaves sources state 0 out (slots (.zip sources)) memory store
  | .generator name yields resume, handle, out, memory, store =>
    [⟨.generator name yields resume, handle, out, memory, store⟩]
  | .external ext, iterator, out, memory, store => [⟨.external ext, iterator, out, memory, store⟩]

/-- The calls of leaves that a round makes from an index on. -/
def callsInFrom (leaves : Leaves) : List Kind → UInt64 → Nat → Nat → List Nat → List UInt8 →
    Store → List MemoryCall
  | kind :: kinds, state, index, out, slot :: slots, memory, store =>
    match store.peek state index with
    | .error _ => []
    | .ok iterator =>
      callsIn leaves kind iterator (out + slot) memory store ++
        match nextIn leaves kind iterator (out + slot) memory store with
        | .error _ => []
        | .ok stored =>
          if stored.status.isFailure then []
          else callsInFrom leaves kinds state (index + 1) out slots stored.memory stored.store
  | _, _, _, _, _, _, _ => []

end

/-- Memory keeps its length, and every byte that belongs to none of some parts. -/
structure SameOutside (parts : List Part) (before after : List UInt8) : Prop where
  length : after.length = before.length
  byte : ∀ i, (∀ part ∈ parts, ¬part.Holds i) → after[i]? = before[i]?

namespace MemoryCall

/-- The slot that the leaf is given. -/
def part (call : MemoryCall) : Part := (leafPart call.kind).shift call.out

/-- The leaf stores into its own slot only. -/
def Confined (leaves : Leaves) (call : MemoryCall) : Prop :=
  ∀ stored, nextIn leaves call.kind call.iterator call.out call.memory call.store = .ok stored →
    SameOutside [call.part] call.memory stored.memory

end MemoryCall

/-! ### Steps without a look at memory -/

theorem shift_comp_shift (m n : Nat) : Write.shift m ∘ Write.shift n = Write.shift (m + n) := by
  funext w
  simp [Write.shift, Nat.add_assoc]

theorem map_shift_shift (m n : Nat) (ws : List Write) :
    (ws.map (Write.shift n)).map (Write.shift m) = ws.map (Write.shift (m + n)) := by
  rw [List.map_map, shift_comp_shift]

theorem countedIn_storedAt (count : Int64) (slot out : Nat) (memory : List UInt8) (step : Step) :
    countedIn count out (step.storedAt (out + slot) memory) =
      (counted count slot step).storedAt out memory := by
  by_cases hok : step.status = Status.ok
  · simp [countedIn, counted, Step.storedAt, hok, applyWrites_append, shift_comp_shift]
  · simp [countedIn, counted, Step.storedAt, hok, shift_comp_shift]

theorem nextRoundIn_nil (leaves : Leaves) (state : UInt64) (index out : Nat) (slots : List Nat)
    (valid : Bool) (memory : List UInt8) (store : Store) :
    nextRoundIn leaves [] state index out slots valid memory store =
      .ok ⟨if valid then Status.ok else Status.stop, memory, store⟩ := by
  cases slots <;> rw [nextRoundIn]
  all_goals intro _ _ _ _ hk; cases hk

theorem nextRoundIn_noSlots (leaves : Leaves) (kinds : List Kind) (state : UInt64) (index out : Nat)
    (valid : Bool) (memory : List UInt8) (store : Store) :
    nextRoundIn leaves kinds state index out [] valid memory store =
      .ok ⟨if valid then Status.ok else Status.stop, memory, store⟩ := by
  rw [nextRoundIn]
  intro _ _ _ _ _ hs
  cases hs

mutual

/-- **Leaves that do not look at memory** make the steps of `Exec.next`, stored into memory. -/
theorem nextIn_leaves (link : Linkage) : ∀ (kind : Kind) (iterator : UInt64) (out : Nat)
    (memory : List UInt8) (store : Store), nextIn link.leaves kind iterator out memory store =
      (next link kind iterator store).map (Step.storedAt out memory)
  | .enumerate source, state, out, memory, store => by
    rw [nextIn, next]
    cases store.blockAt state with
    | error fault => rfl
    | ok found =>
      obtain ⟨block, words⟩ := found
      simp only [nextIn_leaves link source]
      cases next link source (words.peek Layout.sourceIndex) (store.set state (.block block
          (words.poke Layout.countIndex (words.peek Layout.countIndex + 1)))) with
      | error fault => rfl
      | ok step => exact congrArg Except.ok (countedIn_storedAt ..)
  | .zip [], state, out, memory, store => by rw [nextIn, next_zip_nil]; rfl
  | .zip (source :: sources), state, out, memory, store => by
    rw [nextIn, next_zip_cons]
    exact nextRoundIn_leaves link (source :: sources) state 0 out _ true memory store
  | .generator name yields resume, handle, out, memory, store => by rw [nextIn, next]; rfl
  | .external (.iterator ..), iterator, out, memory, store => by rw [nextIn, next]; rfl
  | .external (.iterable _ _ _ (.iterator ..)), iterator, out, memory, store => by
    rw [nextIn, next]; rfl
  | .external (.iterable _ _ _ (.iterable ..)), iterator, out, memory, store => by
    rw [nextIn, next]; rfl

theorem nextRoundIn_leaves (link : Linkage) : ∀ (kinds : List Kind) (state : UInt64)
    (index out : Nat) (slots : List Nat) (valid : Bool) (memory : List UInt8) (store : Store),
    nextRoundIn link.leaves kinds state index out slots valid memory store =
      (nextRound link kinds state index slots valid store).map (Step.storedAt out memory)
  | [], state, index, out, slots, valid, memory, store => by
    rw [nextRoundIn_nil, nextRound_nil]
    rfl
  | kind :: kinds, state, index, out, [], valid, memory, store => by
    rw [nextRoundIn_noSlots, nextRound_noSlots]
    rfl
  | kind :: kinds, state, index, out, slot :: slots, valid, memory, store => by
    rw [nextRoundIn, nextRound]
    cases store.peek state index with
    | error fault => rfl
    | ok iterator =>
      simp only [nextIn_leaves link kind]
      cases next link kind iterator store with
      | error fault => rfl
      | ok step =>
        simp only [Except.map, Step.storedAt]
        split
        · simp only [map_shift_shift]
        · rw [nextRoundIn_leaves link kinds]
          cases nextRound link kinds state (index + 1) slots (valid && step.status = Status.ok)
              step.store with
          | error fault => rfl
          | ok rest =>
            simp only [Except.map, Step.storedAt, List.map_append, map_shift_shift,
              applyWrites_append]

end

/-! ### The slots that leaves are given -/

/-- The parts of some sources that leaves store into. -/
def leafPartsFrom (kinds : List Kind) (slots : List Nat) : List Part :=
  (partsFrom kinds slots).filter Part.isLeaf

theorem filter_isLeaf_shift (n : Nat) (parts : List Part) :
    (parts.map (Part.shift n)).filter Part.isLeaf = (parts.filter Part.isLeaf).map (Part.shift n) := by
  rw [List.filter_map]
  rfl

theorem leafParts_enumerate (source : Kind) :
    leafParts (.enumerate source) = (leafParts source).map (Part.shift (payloadSlot source)) := by
  rw [leafParts, parts, List.filter_cons_of_neg (by decide), filter_isLeaf_shift]
  rfl

theorem leafPartsFrom_cons (kind : Kind) (kinds : List Kind) (slot : Nat) (slots : List Nat) :
    leafPartsFrom (kind :: kinds) (slot :: slots) =
      (leafParts kind).map (Part.shift slot) ++ leafPartsFrom kinds slots := by
  rw [leafPartsFrom, partsFrom, List.filter_append, filter_isLeaf_shift]
  rfl

theorem map_part_shift (out slot : Nat) (parts : List Part) :
    (parts.map (Part.shift slot)).map (Part.shift out) = parts.map (Part.shift (out + slot)) := by
  rw [List.map_map]
  exact List.map_congr_left fun part _ => Part.shift_shift out slot part

/-- What a step asks of its leaves: they are given the first few of the parts in order, and all of
them unless the step fails. -/
structure Hands (calls : List MemoryCall) (result : Except Fault Stored) (given : List Part) :
    Prop where
  isPrefix : calls.map MemoryCall.part <+: given
  all : ∀ stored, result = .ok stored → stored.status.isFailure = false →
    calls.map MemoryCall.part = given

theorem Hands.one {call : MemoryCall} {result : Except Fault Stored} :
    Hands [call] result [(leafPart call.kind).shift call.out] :=
  ⟨List.prefix_rfl, fun _ _ _ => rfl⟩

theorem callsInFrom_nil (leaves : Leaves) (state : UInt64) (index out : Nat) (slots : List Nat)
    (memory : List UInt8) (store : Store) :
    callsInFrom leaves [] state index out slots memory store = [] := by
  cases slots <;> rw [callsInFrom]
  all_goals intro _ _ _ _ hk; cases hk

theorem partsFrom_nil (slots : List Nat) : partsFrom [] slots = [] := by
  cases slots <;> rw [partsFrom]
  all_goals intro _ _ _ _ hk; cases hk

mutual

/-- **The slots that leaves are given** are the parts of what the kind yields. -/
theorem callsIn_parts (leaves : Leaves) : ∀ (kind : Kind) (iterator : UInt64) (out : Nat)
    (memory : List UInt8) (store : Store),
    Hands (callsIn leaves kind iterator out memory store)
      (nextIn leaves kind iterator out memory store) ((leafParts kind).map (Part.shift out))
  | .enumerate source, state, out, memory, store => by
    rw [callsIn, nextIn, leafParts_enumerate, map_part_shift]
    cases store.blockAt state with
    | error fault => exact ⟨List.nil_prefix, fun _ h => by cases h⟩
    | ok found =>
      obtain ⟨block, words⟩ := found
      have hinner := callsIn_parts leaves source (words.peek Layout.sourceIndex)
        (out + payloadSlot source) memory (store.set state (.block block
          (words.poke Layout.countIndex (words.peek Layout.countIndex + 1))))
      -- the enumerate stores its count without a leaf, and keeps the status of its source
      refine ⟨hinner.isPrefix, fun stored hs hf => ?_⟩
      simp only at hs
      cases hn : nextIn leaves source (words.peek Layout.sourceIndex) (out + payloadSlot source)
          memory (store.set state (.block block
            (words.poke Layout.countIndex (words.peek Layout.countIndex + 1)))) with
      | error fault => rw [hn] at hs; cases hs
      | ok inner =>
        rw [hn] at hs
        cases hs
        exact hinner.all inner hn hf
  | .zip sources, state, out, memory, store => by
    have hround := callsInFrom_parts leaves sources state 0 out (slots (.zip sources)) true memory store
    rw [callsIn]
    cases sources with
    | nil => exact ⟨List.nil_prefix, fun _ _ _ => rfl⟩
    | cons source sources =>
      rw [nextIn]
      exact hround
  | .generator name yields resume, handle, out, memory, store => by
    rw [callsIn]
    exact Hands.one
  | .external ext, iterator, out, memory, store => by
    rw [callsIn]
    exact Hands.one

theorem callsInFrom_parts (leaves : Leaves) : ∀ (kinds : List Kind) (state : UInt64)
    (index out : Nat) (slots : List Nat) (valid : Bool) (memory : List UInt8) (store : Store),
    Hands (callsInFrom leaves kinds state index out slots memory store)
      (nextRoundIn leaves kinds state index out slots valid memory store)
      ((leafPartsFrom kinds slots).map (Part.shift out))
  | [], state, index, out, slots, valid, memory, store => by
    rw [callsInFrom_nil]
    exact ⟨List.nil_prefix, fun _ _ _ => by rw [leafPartsFrom, partsFrom_nil]; rfl⟩
  | kind :: kinds, state, index, out, [], valid, memory, store => by
    have hcalls : callsInFrom leaves (kind :: kinds) state index out [] memory store = [] := by
      rw [callsInFrom]
      intro _ _ _ _ _ hs
      cases hs
    have hparts : leafPartsFrom (kind :: kinds) [] = [] := by
      rw [leafPartsFrom, partsFrom]
      · rfl
      · intro _ _ _ _ _ hs
        cases hs
    rw [hcalls, hparts]
    exact ⟨List.nil_prefix, fun _ _ _ => rfl⟩
  | kind :: kinds, state, index, out, slot :: slots, valid, memory, store => by
    rw [callsInFrom, nextRoundIn, leafPartsFrom_cons, List.map_append, map_part_shift]
    cases store.peek state index with
    | error fault => exact ⟨List.nil_prefix, fun _ h => by cases h⟩
    | ok iterator =>
      have hfirst := callsIn_parts leaves kind iterator (out + slot) memory store
      cases hn : nextIn leaves kind iterator (out + slot) memory store with
      | error fault =>
        simp only [hn, List.append_nil]
        exact ⟨hfirst.isPrefix.trans (List.prefix_append ..), fun _ h => by cases h⟩
      | ok stored =>
        simp only [hn]
        by_cases hf : stored.status.isFailure = true
        · -- a failure cuts the round short
          simp only [if_pos hf, List.append_nil]
          refine ⟨hfirst.isPrefix.trans (List.prefix_append ..), fun last hs hlast => ?_⟩
          cases hs
          rw [hf] at hlast
          cases hlast
        · -- the first source was given all its parts, so the others are given theirs next
          have hall := hfirst.all stored hn (by simpa using hf)
          have hrest := callsInFrom_parts leaves kinds state (index + 1) out slots
            (valid && stored.status = Status.ok) stored.memory stored.store
          simp only [if_neg hf]
          constructor
          · rw [List.map_append, hall]
            exact (List.prefix_append_right_inj _).mpr hrest.isPrefix
          · intro last hs hlast
            rw [List.map_append, hall, hrest.all last hs hlast]

end

/-! ### What a step leaves alone -/

namespace SameOutside

theorem refl (parts : List Part) (memory : List UInt8) : SameOutside parts memory memory :=
  ⟨rfl, fun _ _ => rfl⟩

theorem trans {parts : List Part} {first second third : List UInt8}
    (h : SameOutside parts first second) (h' : SameOutside parts second third) :
    SameOutside parts first third :=
  ⟨h'.length.trans h.length, fun i hi => (h'.byte i hi).trans (h.byte i hi)⟩

theorem mono {parts more : List Part} {before after : List UInt8}
    (h : SameOutside parts before after) (hsub : parts ⊆ more) : SameOutside more before after :=
  ⟨h.length, fun i hi => h.byte i fun part hp => hi part (hsub hp)⟩

end SameOutside

/-- A byte that no write covers stays. -/
theorem getElem?_overwrite_of_not_covers {memory : List UInt8} {w : Write} {i : Nat}
    (h : ¬w.Covers i) : (overwrite memory w)[i]? = memory[i]? := by
  by_cases hi : i < memory.length
  · rw [getElem?_overwrite hi, w.byte?_of_not_covers h, Option.none_or]
  · rw [List.getElem?_eq_none (by rw [length_overwrite]; omega), List.getElem?_eq_none (by omega)]

/-- A count is stored into its own part. -/
theorem sameOutside_countedIn (count : Int64) (out : Nat) (stored : Stored) :
    SameOutside [countPart.shift out] stored.memory (countedIn count out stored).memory := by
  unfold countedIn
  simp only
  split
  · refine ⟨length_overwrite .., fun i hi => getElem?_overwrite_of_not_covers fun hc => ?_⟩
    refine hi _ (List.mem_singleton_self _) ?_
    simpa [Part.Holds, Part.stop, Part.shift, countPart, Write.Covers, Write.stop, Write.shift,
      Write.word] using hc
  · exact SameOutside.refl _ _

mutual

/-- **A step changes its parts of memory only**, if its leaves change their slots only. -/
theorem frame_nextIn {leaves : Leaves} : ∀ {kind : Kind} {iterator : UInt64} {out : Nat}
    {memory : List UInt8} {store : Store},
    (∀ call ∈ callsIn leaves kind iterator out memory store, call.Confined leaves) →
    ∀ {stored}, nextIn leaves kind iterator out memory store = .ok stored →
      SameOutside ((parts kind).map (Part.shift out)) memory stored.memory
  | .enumerate source, state, out, memory, store, hc, stored, hs => by
    rw [callsIn] at hc
    rw [nextIn] at hs
    cases hb : store.blockAt state with
    | error fault => rw [hb] at hs; cases hs
    | ok found =>
      obtain ⟨block, words⟩ := found
      rw [hb] at hc hs
      simp only at hc hs
      cases hn : nextIn leaves source (words.peek Layout.sourceIndex) (out + payloadSlot source)
          memory (store.set state (.block block
            (words.poke Layout.countIndex (words.peek Layout.countIndex + 1)))) with
      | error fault => rw [hn] at hs; cases hs
      | ok inner =>
        rw [hn] at hs
        cases hs
        -- the source has its slot behind the count, and both lie in the buffer
        have hinner := frame_nextIn hc hn
        rw [← map_part_shift] at hinner
        rw [parts, List.map_cons]
        exact (hinner.mono (List.subset_cons_self ..)).trans
          ((sameOutside_countedIn _ out inner).mono (by simp))
  | .zip [], state, out, memory, store, hc, stored, hs => by
    rw [nextIn] at hs
    cases hs
    exact SameOutside.refl _ _
  | .zip (source :: sources), state, out, memory, store, hc, stored, hs => by
    rw [nextIn] at hs
    rw [callsIn] at hc
    rw [parts]
    exact frame_nextRoundIn hc hs
  | .generator name yields resume, handle, out, memory, store, hc, stored, hs => by
    rw [callsIn] at hc
    rw [parts]
    exact hc _ (List.mem_singleton_self _) stored hs
  | .external ext, iterator, out, memory, store, hc, stored, hs => by
    rw [callsIn] at hc
    rw [parts]
    exact hc _ (List.mem_singleton_self _) stored hs

/-- A round changes the parts of its sources only. -/
theorem frame_nextRoundIn {leaves : Leaves} : ∀ {kinds : List Kind} {state : UInt64}
    {index out : Nat} {slots : List Nat} {valid : Bool} {memory : List UInt8} {store : Store},
    (∀ call ∈ callsInFrom leaves kinds state index out slots memory store, call.Confined leaves) →
    ∀ {stored}, nextRoundIn leaves kinds state index out slots valid memory store = .ok stored →
      SameOutside ((partsFrom kinds slots).map (Part.shift out)) memory stored.memory
  | [], state, index, out, slots, valid, memory, store, hc, stored, hs => by
    rw [nextRoundIn_nil] at hs
    cases hs
    exact SameOutside.refl _ _
  | kind :: kinds, state, index, out, [], valid, memory, store, hc, stored, hs => by
    rw [nextRoundIn_noSlots] at hs
    cases hs
    exact SameOutside.refl _ _
  | kind :: kinds, state, index, out, slot :: slots, valid, memory, store, hc, stored, hs => by
    rw [callsInFrom] at hc
    rw [nextRoundIn] at hs
    cases hp : store.peek state index with
    | error fault => rw [hp] at hs; cases hs
    | ok iterator =>
      rw [hp] at hc hs
      simp only at hc hs
      cases hn : nextIn leaves kind iterator (out + slot) memory store with
      | error fault => rw [hn] at hs; cases hs
      | ok inner =>
        rw [hn] at hc hs
        simp only at hc hs
        have hinner := frame_nextIn (fun call hm => hc call (List.mem_append_left _ hm)) hn
        rw [← map_part_shift] at hinner
        rw [partsFrom, List.map_append]
        have hfirst : SameOutside (((parts kind).map (Part.shift slot)).map (Part.shift out) ++
            (partsFrom kinds slots).map (Part.shift out)) memory inner.memory :=
          hinner.mono (List.subset_append_left _ _)
        by_cases hf : inner.status.isFailure = true
        · -- nothing is asked of the sources behind one that fails
          rw [if_pos hf] at hs
          cases hs
          exact hfirst
        · rw [if_neg hf] at hc hs
          have hrest := frame_nextRoundIn (fun call hm => hc call (List.mem_append_right _ hm)) hs
          exact hfirst.trans (hrest.mono (List.subset_append_right _ _))

end

/-- A step changes no byte outside of its buffer, if its leaves change their slots only. -/
theorem getElem?_nextIn {leaves : Leaves} {kind : Kind} {iterator : UInt64} {out : Nat}
    {memory : List UInt8} {store : Store}
    (hc : ∀ call ∈ callsIn leaves kind iterator out memory store, call.Confined leaves)
    {stored : Stored} (hs : nextIn leaves kind iterator out memory store = .ok stored) {i : Nat}
    (hi : i < out ∨ out + (Entry.yieldLayout kind).size ≤ i) : stored.memory[i]? = memory[i]? := by
  refine (frame_nextIn hc hs).byte i fun part hp => ?_
  obtain ⟨inner, hm, rfl⟩ := List.mem_map.mp hp
  have hle := stop_le_of_mem_parts kind inner hm
  simp only [Part.Holds, Part.offset_shift, Part.stop_shift]
  omega

end Exec

end PullIter
