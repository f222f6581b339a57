import PullIter.Compiler.Finish
import PullIter.Layout.Decode
import PullIter.Store.Calls

/-!
# Running lowered bodies

What each lowered body does to the store, given what the symbols it calls do.  A body
that advances a combinator advances its sources in order, each into its own part of the
buffer, and a failure word cuts the round short.

## Main definitions

* `Linkage` — what the symbols do that bodies call.
* `Exec.next` — advance an iterator.
* `Exec.getiter`, `Exec.construct`, `Exec.release` — the life of an iterator.
* `Exec.forEach` — the loop.

## Main results

* `next_generator`, `next_zip_nil`, `next_zip_cons` — steps that are opened by name.
* `releaseMade_of_not_releasesMade` — nothing happens to what needs no release.
-/

namespace PullIter

/-- What the symbols do that lowered bodies call. -/
structure Linkage where
  next : String → UInt64 → Store → Except Fault Step
  getiter : String → UInt64 → Store → Except Fault (UInt64 × Store)
  release : String → UInt64 → Store → Except Fault Store
  /-- Get storage for a record. -/
  alloc : Layout → Store → Except Fault (UInt64 × Store)
  /-- Give the storage of a record back. -/
  free : Layout → UInt64 → Store → Except Fault Store

namespace Exec

/-- The offsets of the fields of what a kind yields. -/
def slots (kind : Kind) : List Nat := (Entry.yieldLayout kind).fields.map Placed.offset

/-- Where the body of an enumerate has the counted value stored. -/
def payloadSlot (source : Kind) : Nat :=
  ((Entry.enumerateLayout source).fields.map Placed.offset)[1]?.getD 0

/-- Where the body of a zip has the values of its sources stored. -/
def zipSlots (sources : List Kind) : List Nat :=
  (Entry.zipLayout sources).fields.map Placed.offset

/-- What an enumerate reports for a step of its source.  The count is stored only beside a
value; exhaustion and failures are passed on. -/
def counted (count : Int64) (slot : Nat) (step : Step) : Step :=
  let writes := step.writes.map (Write.shift slot)
  { step with writes := if step.status = Status.ok then writes ++ [.word count] else writes }

mutual

/-- Advance the iterator that `getiter` makes of a value of the kind.

An enumerate moves its count before it asks its source, so the count moves in every
round.  A zip without sources is exhausted; any other asks all its sources in order, also
after one of them was exhausted, and only a failure cuts the round short. -/
def next (link : Linkage) : Kind → UInt64 → Store → Except Fault Step
  | .enumerate source, state, store =>
    match store.blockAt state with
    | .error fault => .error fault
    | .ok (block, words) =>
      let count := words.peek Layout.countIndex
      -- the count moves first, so it also counts a round that ends without a value
      let moved := store.set state (.block block (words.poke Layout.countIndex (count + 1)))
      (next link source (words.peek Layout.sourceIndex) moved).map
        (counted count.toInt64 (payloadSlot source))
  | .zip [], _, store => .ok ⟨Status.stop, [], store⟩
  | .zip (source :: sources), state, store =>
    nextRound link (source :: sources) state 0 (zipSlots (source :: sources)) true store
  | .generator _ _ resume, handle, store => link.next resume handle store
  | .external (.iterator _ _ symbol _), iterator, store
  | .external (.iterable _ _ _ (.iterator _ _ symbol _)), iterator, store =>
    link.next symbol iterator store
  | .external (.iterable _ _ _ (.iterable name ..)), _, _ => .error (.noCode name)

/-- One round over the sources of a zip from an index on.  `valid` tells whether every source
before these produced a value. -/
def nextRound (link : Linkage) :
    List Kind → UInt64 → Nat → List Nat → Bool → Store → Except Fault Step
  | kind :: kinds, state, index, slot :: slots, valid, store =>
    -- a source is looked up when its turn has come
    match store.peek state index with
    | .error fault => .error fault
    | .ok iterator =>
      match next link kind iterator store with
      | .error fault => .error fault
      | .ok step =>
        let writes := step.writes.map (Write.shift slot)
        -- what was stored before a failure stays stored
        if step.status.isFailure then .ok { step with writes := writes }
        else
          (nextRound link kinds state (index + 1) slots (valid && step.status = Status.ok)
            step.store).map fun rest => { rest with writes := writes ++ rest.writes }
  | _, _, _, _, valid, store => .ok ⟨if valid then Status.ok else Status.stop, [], store⟩

end

@[simp] theorem next_generator (link : Linkage) (name : String) (yields : ValueType)
    (resume : String) (handle : UInt64) (store : Store) :
    next link (.generator name yields resume) handle store = link.next resume handle store := by
  rw [next]

@[simp] theorem next_zip_nil (link : Linkage) (state : UInt64) (store : Store) :
    next link (.zip []) state store = .ok ⟨Status.stop, [], store⟩ := by
  rw [next]

/-- The slots of a zip are the fields of what it yields. -/
theorem zipSlots_eq (sources : List Kind) : zipSlots sources = slots (.zip sources) := by
  rw [zipSlots, Entry.zipLayout_eq, slots]

theorem next_zip_cons (link : Linkage) (source : Kind) (sources : List Kind) (state : UInt64)
    (store : Store) : next link (.zip (source :: sources)) state store =
      nextRound link (source :: sources) state 0 (slots (.zip (source :: sources))) true store := by
  rw [next, zipSlots_eq]

/-! ### The life of an iterator -/

/-- Make an iterator of a value.  An iterator is its own iterator. -/
def getiter (link : Linkage) (kind : Kind) (value : UInt64) (store : Store) :
    Except Fault (UInt64 × Store) :=
  match kind.getiterSymbol? with
  | some symbol => link.getiter symbol value store
  | none => .ok (value, store)

/-- Release what `getiter` made of a source: the iterator of an iterable, if there is a symbol
for it.  An alias is left alone. -/
def releaseMade (link : Linkage) (source : Kind) (iterator : UInt64) (store : Store) :
    Except Fault Store :=
  match source with
  | .external (.iterable _ _ _ (.iterator _ _ _ (some symbol))) => link.release symbol iterator store
  | _ => .ok store

/-- Nothing happens to what needs no release. -/
theorem releaseMade_of_not_releasesMade {source : Kind} (h : source.releasesMade = false)
    (link : Linkage) (iterator : UInt64) (store : Store) :
    releaseMade link source iterator store = .ok store := by
  unfold releaseMade
  split
  · simp [Kind.releasesMade, Kind.ownership, Kind.isIterator, External.isIterator,
      Kind.iteratorKind, External.made, Kind.needsRelease] at h
  · rfl

/-- Release what `getiter` made of the sources of a zip from an index on, in order.  A source
that needs no release is not even looked up. -/
def releaseSources (link : Linkage) : List Kind → UInt64 → Nat → Store → Except Fault Store
  | [], _, _, store => .ok store
  | kind :: kinds, state, index, store =>
    if kind.releasesMade then
      match store.peek state index with
      | .error fault => .error fault
      | .ok iterator =>
        match releaseMade link kind iterator store with
        | .error fault => .error fault
        | .ok store => releaseSources link kinds state (index + 1) store
    else releaseSources link kinds state (index + 1) store

/-- The word in a scalar field of an argument record. -/
def loadArg (layout : Layout) (index : Nat) (record : List UInt8) : Except Fault UInt64 :=
  match layout.fields[index]? with
  | none => .error (.outOfBounds index 0)
  | some field =>
    match slice? record field.offset field.layout.size with
    | none => .error (.outOfBounds field.offset field.layout.size)
    | some bytes => .ok (wordOf bytes)

/-- The count that a start argument stands for: a truth value counts as zero or one, and a
32-bit integer keeps its sign. -/
def widenStart (kind : Scalar) (word : UInt64) : Int64 :=
  match kind with
  | .i32 => word.toUInt32.toInt32.toInt64
  | _ => word.toInt64

/-- The count that an enumerate starts from. -/
def loadStart (args : List Scalar) (record : List UInt8) : Except Fault Int64 :=
  match args[1]? with
  | none => .ok 0
  | some kind =>
    (loadArg (Layout.enumerateArgs targetPointerBytes args) 1 record).map (widenStart kind)

/-- Make iterators of the values in the fields of an argument record from an index on, and
store each into the state of a zip. -/
def storeSources (link : Linkage) (layout : Layout) (record : List UInt8) (state : UInt64) :
    List Kind → Nat → Store → Except Fault Store
  | [], _, store => .ok store
  | kind :: kinds, index, store =>
    match loadArg layout index record with
    | .error fault => .error fault
    | .ok value =>
      match getiter link kind value store with
      | .error fault => .error fault
      | .ok (iterator, store) =>
        match store.poke state index iterator with
        | .error fault => .error fault
        | .ok store => storeSources link layout record state kinds (index + 1) store

/-- Make a combinator from its argument record.  An enumerate makes the iterator of its
source before its state, a zip its state before the iterators of its sources. -/
def construct (link : Linkage) (kind : Kind) (args : List Scalar) (record : List UInt8)
    (store : Store) : Except Fault (UInt64 × Store) :=
  match kind with
  | .enumerate source =>
    match loadArg (Layout.enumerateArgs targetPointerBytes args) 0 record, loadStart args record with
    | .error fault, _ | _, .error fault => .error fault
    | .ok value, .ok start =>
      match getiter link source value store with
      | .error fault => .error fault
      | .ok (iterator, store) =>
        match link.alloc Entry.enumerateState store with
        | .error fault => .error fault
        | .ok (state, store) =>
          match store.poke state Layout.countIndex start.toUInt64 with
          | .error fault => .error fault
          | .ok store =>
            (store.poke state Layout.sourceIndex iterator).map fun store => (state, store)
  | .zip sources =>
    match link.alloc (Entry.zipState sources.length) store with
    | .error fault => .error fault
    | .ok (state, store) =>
      (storeSources link (Layout.zipArgs targetPointerBytes args) record state sources 0 store).map
        fun store => (state, store)
  | .generator .. | .external _ => .error (.noCode kind.name)

/-- Release an owned value: the iterators that it made of its sources, and its state. -/
def release (link : Linkage) (kind : Kind) (state : UInt64) (store : Store) :
    Except Fault Store :=
  match kind with
  | .enumerate source =>
    if source.releasesMade then
      match store.peek state Layout.sourceIndex with
      | .error fault => .error fault
      | .ok iterator =>
        match releaseMade link source iterator store with
        | .error fault => .error fault
        | .ok store => link.free Entry.enumerateState state store
    else link.free Entry.enumerateState state store
  | .zip sources =>
    match releaseSources link sources state 0 store with
    | .error fault => .error fault
    | .ok store => link.free (Entry.zipState sources.length) state store
  | .generator .. | .external _ => .error (.noCode kind.name)

/-! ### The loop -/

/-- What a loop hands its values to.  It is given the bytes of a value and reports a status
word; anything but `Status.ok` ends the loop. -/
abbrev Sink (σ : Type) := List UInt8 → σ → Except Fault (Status × σ)

/-- The rounds of a loop, at most `fuel` of them. -/
def rounds {σ : Type} (link : Linkage) (kind : Kind) (sink : Sink σ) (iterator : UInt64) :
    Nat → List UInt8 → σ → Store → Except Fault (Status × σ × Store)
  | 0, _, _, _ => .error .endlessLoop
  | fuel + 1, buffer, seen, store =>
    match next link kind iterator store with
    | .error fault => .error fault
    | .ok step =>
      let buffer := applyWrites buffer step.writes
      if step.status = Status.ok then
        match sink buffer seen with
        | .error fault => .error fault
        | .ok (status, seen) =>
          if status = Status.ok then rounds link kind sink iterator fuel buffer seen step.store
          else .ok (status, seen, step.store)
      -- exhaustion is how a loop is meant to end
      else if step.status = Status.stop then .ok (Status.ok, seen, step.store)
      else .ok (step.status, seen, step.store)

/-- The number of bytes of the slot that a loop over a kind stores values into.  An empty tuple
needs a slot too. -/
def slotSize (kind : Kind) : Nat := max 1 (Entry.yieldLayout kind).size

/-- A slot that happens to be zero. -/
def zeroSlot (kind : Kind) : List UInt8 := List.replicate (slotSize kind) 0

/-- Run a loop over a value: make an iterator, hand its values to the sink, and release the
iterator however the loop ended.  Nothing is stored into the slot before the first round, which
finds there whatever the slot holds. -/
def forEach {σ : Type} (link : Linkage) (kind : Kind) (sink : Sink σ) (slot : List UInt8)
    (value : UInt64) (seen : σ) (store : Store) : Except Fault (Status × σ × Store) :=
  match getiter link kind value store with
  | .error fault => .error fault
  | .ok (iterator, store) =>
    match rounds link kind sink iterator (store.rounds + 1) slot seen store with
    | .error fault => .error fault
    | .ok (status, seen, store) =>
      (releaseMade link kind iterator store).map fun store => (status, seen, store)

end Exec

end PullIter
