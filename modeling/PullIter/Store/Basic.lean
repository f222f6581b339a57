import PullIter.Keyed
import PullIter.Provider
import PullIter.Store.Counters
import PullIter.Store.Generator
import PullIter.Store.Words

/-!
# The store

Everything that running code can see: the live objects by their addresses, the
allocation counters, the log of the scripts and the calls of linked routines.  An address is
never used twice.

Iterators over arrays, ranges and the states of combinators are records of words in
blocks of storage, and whoever has the address of a block may read it as any of them:

| record                 | words                                |
|------------------------|--------------------------------------|
| iterator over an array | the array, the index                 |
| range                  | the next number, the stop, the calls |
| state of an enumerate  | the count, the source                |
| state of a zip         | the sources                          |

Arrays, generators and scripts are only worked on by their own routines.

## Main definitions

* `Cell` — a live object.
* `Call` — a call of a routine that a symbol is linked to.
* `Store` — the objects, the counters, the log and the calls.
* `Store.get?`, `Store.set`, `Store.erase`, `Store.alloc` — the accesses.
* `Store.peek`, `Store.poke` — load and store a word.

## Main results

* `get?_set_self`, `get?_set_of_ne`, `get?_erase_self`, `get?_erase_of_ne`,
  `get?_alloc_of_some`, `get?_alloc_self` — what an access does to each address.
* `blockAt_of_get?`, `peek_of_get?`, `poke_of_get?` — the words of a block.
-/

namespace PullIter

/-- A prepared list of steps, which the script routines play. -/
structure Script where
  /-- The name it logs under. -/
  name : String
  /-- The status word of each step, and the bytes it stores. -/
  items : List (Status × List UInt8)
  /-- The number of steps that have been played. -/
  position : Nat
  /-- The number of copies that were started from it. -/
  copies : Nat
  /-- It is a copy itself. -/
  isCopy : Bool
  deriving DecidableEq, Repr

/-- What a script logs. -/
inductive Event
  /-- A copy was started from the script. -/
  | getiter (script : String)
  /-- A step was played. -/
  | next (script : String) (status : Status)
  /-- A step was asked for behind the last. -/
  | ended (script : String)
  /-- The script was ended. -/
  | release (script : String)
  deriving DecidableEq, Repr

/-- The line that an event is logged as. -/
def Event.line : Event → String
  | getiter script => "getiter " ++ script
  | next script status => "next " ++ script ++ " " ++ toString status.toInt
  | ended script => "next " ++ script ++ " end"
  | release script => "release " ++ script

/-- A call of a routine that a symbol is linked to, with its answer.  Only calls on behalf of a
compilation unit are noted, whether a body or the host makes them. -/
inductive Call
  | getiter (provider : Provider) (value iterator : UInt64)
  | next (provider : Provider) (iterator : UInt64) (status : Status)
  | release (provider : Provider) (iterator : UInt64)
  /-- Storage for the state of a combinator. -/
  | alloc (provider : Provider) (size align : Nat) (tag : Int32) (state : UInt64)
  | free (provider : Provider) (state : UInt64) (size align : Nat) (tag : Int32)
  deriving DecidableEq, Repr

/-- The size and alignment of a block of storage. -/
structure Block where
  size : Nat
  align : Nat
  deriving DecidableEq, Repr

/-- The largest size of an object. -/
def maxBlockSize : Nat := 1 <<< 63 - 1

/-- A power of two. -/
def isPowerOfTwo (n : Nat) : Bool := n ≠ 0 && n = 1 <<< n.log2

/-- The block that a size and an alignment ask for; each counts as one at least, so that
also an empty block has an address of its own. -/
def Block.of (size align : Int) : Except Fault Block :=
  let block : Block := ⟨(max size 1).toNat, (max align 1).toNat⟩
  if isPowerOfTwo block.align && block.size + block.align - 1 ≤ maxBlockSize then .ok block
  else .error .badBlock

/-- A live object. -/
inductive Cell
  /-- An array, with the number of steps that its iterators were asked for. -/
  | array (elements : List Int64) (nextCalls : Nat)
  /-- A generator. -/
  | generator (generator : Generator)
  /-- A script. -/
  | script (script : Script)
  /-- A block of storage. -/
  | block (block : Block) (words : Words)
  deriving DecidableEq, Repr

namespace Cell

/-- The words that can be read of an object.  Only blocks show any. -/
def words : Cell → Words
  | .block _ words => words
  | .array .. | .generator _ | .script _ => []

/-- The number of steps with a value that an object can make of its own values. -/
def values : Cell → Nat
  | .array elements _ => elements.length
  | .generator g => g.body.pending.count
  | .script s => s.items.length
  | .block .. => 0

end Cell

/-- Everything that running code can see. -/
structure Store where
  /-- The live objects, the oldest first. -/
  cells : List (UInt64 × Cell)
  /-- The first address that was never used. -/
  unused : Nat
  counters : Counters
  /-- The number of script copies that have not ended. -/
  copies : Int
  /-- The log. -/
  events : List Event
  /-- The calls of linked routines, the newest first. -/
  calls : List Call
  deriving DecidableEq, Repr

namespace Store

/-- The first address of an object; the addresses below are never handed out. -/
def firstAddress : Nat := 0x7f00000000

/-- The store without objects. -/
def empty : Store := ⟨[], firstAddress, .zero, 0, [], []⟩

/-- The object at an address. -/
def get? (store : Store) (address : UInt64) : Option Cell := store.cells.lookup address

/-- Change the object at an address. -/
def set (store : Store) (address : UInt64) (cell : Cell) : Store :=
  { store with cells := Keyed.replace address cell store.cells }

/-- End the object at an address. -/
def erase (store : Store) (address : UInt64) : Store :=
  { store with cells := store.cells.filter fun entry => entry.1 != address }

/-- The first multiple of an alignment that was never used. -/
def freshAddress (store : Store) (align : Nat) : Nat :=
  (store.unused + align - 1) / align * align

/-- A new object at an address that was never used. -/
def allocAt (store : Store) (address : Nat) (block : Block) (cell : Cell) :
    Except Fault (UInt64 × Store) :=
  if address + block.size < UInt64.size then
    .ok (.ofNat address,
      { store with
        cells := store.cells ++ [(.ofNat address, cell)]
        unused := address + block.size })
  else .error .outOfMemory

/-- A new object at a fresh address. -/
def alloc (store : Store) (block : Block) (cell : Cell) : Except Fault (UInt64 × Store) :=
  store.allocAt (store.freshAddress block.align) block cell

/-- The block at an address, with its words. -/
def blockAt (store : Store) (address : UInt64) : Except Fault (Block × Words) :=
  match store.get? address with
  | some (.block block words) => .ok (block, words)
  | _ => .error (.badPointer address)

/-- The word at an index of a live object. -/
def peek (store : Store) (address : UInt64) (index : Nat) : Except Fault UInt64 :=
  match store.get? address with
  | some cell => .ok (cell.words.peek index)
  | none => .error (.badPointer address)

/-- Store a word at an index of a block. -/
def poke (store : Store) (address : UInt64) (index : Nat) (word : UInt64) : Except Fault Store :=
  (store.blockAt address).map fun (block, words) =>
    store.set address (.block block (words.poke index word))

/-- Give the storage of a live object back, whatever the object is. -/
def reclaim (store : Store) (address : UInt64) : Except Fault Store :=
  match store.get? address with
  | some _ => .ok (store.erase address)
  | none => .error (.badPointer address)

/-- The first bytes of a live object; there are none where there is no object. -/
def bytesAt (store : Store) (address : UInt64) (size : Nat) : List UInt8 :=
  match store.get? address with
  | some cell => cell.words.bytes size
  | none => []

/-- Count an allocation, or with a negative number its end. -/
def count (store : Store) (kind : AllocKind) (by_ : Int) : Store :=
  { store with counters := store.counters.bump kind by_ }

/-- Count by the tag of a kind. -/
def countTag (store : Store) (tag : Int32) (by_ : Int) : Store :=
  { store with counters := store.counters.bumpTag tag by_ }

/-- Add a line to the log. -/
def log (store : Store) (event : Event) : Store := { store with events := store.events ++ [event] }

/-- Note a call. -/
def called (store : Store) (call : Call) : Store := { store with calls := call :: store.calls }

/-- More rounds than any loop over the objects has with a value: a range has less than
`2 ^ 64` of them, and any other object no more than it has values of its own. -/
def rounds (store : Store) : Nat :=
  UInt64.size + store.cells.foldr (fun entry total => entry.2.values + total) 0

/-! ### What an access does to each address -/

/-- A changed object is the one that is found. -/
theorem get?_set_self {store : Store} {address : UInt64} {cell old : Cell}
    (h : store.get? address = some old) : (store.set address cell).get? address = some cell :=
  Keyed.lookup_replace_self h

/-- A change leaves every other address alone. -/
theorem get?_set_of_ne {store : Store} {address other : UInt64} {cell : Cell}
    (h : other ≠ address) : (store.set address cell).get? other = store.get? other :=
  Keyed.lookup_replace_of_ne h

/-- An ended object is not found. -/
theorem get?_erase_self (store : Store) (address : UInt64) :
    (store.erase address).get? address = none := by
  simp only [get?, erase]
  induction store.cells with
  | nil => rfl
  | cons entry rest ih =>
    by_cases hk : entry.1 = address
    · rw [List.filter_cons_of_neg (by simp [hk]), ih]
    · have hb : (address == entry.1) = false := by simpa using fun h : address = entry.1 => hk h.symm
      rw [List.filter_cons_of_pos (by simp [hk]), List.lookup_cons, hb, ih]

/-- Ending an object leaves every other address alone. -/
theorem get?_erase_of_ne {store : Store} {address other : UInt64} (h : other ≠ address) :
    (store.erase address).get? other = store.get? other := by
  simp only [get?, erase]
  induction store.cells with
  | nil => rfl
  | cons entry rest ih =>
    by_cases hk : entry.1 = address
    · have hb : (other == entry.1) = false := by rw [hk]; simpa using h
      rw [List.filter_cons_of_neg (by simp [hk]), List.lookup_cons, hb, ih]
    · rw [List.filter_cons_of_pos (by simp [hk]), List.lookup_cons, List.lookup_cons, ih]

/-- A new object leaves the live ones alone. -/
theorem get?_alloc_of_some {store after : Store} {block : Block} {cell old : Cell}
    {address other : UInt64} (h : store.alloc block cell = .ok (address, after))
    (hold : store.get? other = some old) : after.get? other = some old := by
  unfold alloc allocAt at h
  split at h
  · cases h
    have hold' : store.cells.lookup other = some old := hold
    simp [get?, List.lookup_append, hold']
  · cases h

/-- A new object is found at its address, if the address was free. -/
theorem get?_alloc_self {store after : Store} {block : Block} {cell : Cell} {address : UInt64}
    (h : store.alloc block cell = .ok (address, after)) (hfree : store.get? address = none) :
    after.get? address = some cell := by
  unfold alloc allocAt at h
  split at h
  · cases h
    have hfree' : store.cells.lookup (.ofNat (store.freshAddress block.align)) = none := hfree
    simp [get?, List.lookup_append, hfree']
  · cases h

/-! ### Words -/

theorem blockAt_of_get? {store : Store} {address : UInt64} {block : Block} {words : Words}
    (h : store.get? address = some (.block block words)) :
    store.blockAt address = .ok (block, words) := by
  simp [blockAt, h]

/-- The words of a block are those that can be read. -/
theorem peek_of_get? {store : Store} {address : UInt64} {block : Block} {words : Words}
    (h : store.get? address = some (.block block words)) (index : Nat) :
    store.peek address index = .ok (words.peek index) := by
  simp [peek, h, Cell.words]

/-- A stored word changes its block and nothing else. -/
theorem poke_of_get? {store : Store} {address : UInt64} {block : Block} {words : Words}
    (h : store.get? address = some (.block block words)) (index : Nat) (word : UInt64) :
    store.poke address index word = .ok (store.set address (.block block (words.poke index word))) := by
  simp [poke, blockAt_of_get? h, Except.map]

end Store

end PullIter
