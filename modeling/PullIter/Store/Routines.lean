import PullIter.Store.Basic

/-!
# The routines behind symbols

What the built-in routines and the script routines do to the store.  A step reports a
status word and the bytes it stored through the pointer it was given.

## Main definitions

* `Step` — the result of advancing an iterator.
* `Store.arrayNext`, `Store.rangeNext`, `Store.generatorNext`, `Store.scriptNext` — steps.
* `Store.allocBlock`, `Store.freeBlock` — storage.

## Main results

* `arrayRelease_zero`, `rangeRelease_zero`, `freeBlock_zero` — null is left alone.
-/

namespace PullIter

/-- The result of advancing an iterator. -/
structure Step where
  status : Status
  /-- What was stored, relative to the pointer that was given. -/
  writes : List Write
  store : Store
  deriving DecidableEq, Repr

/-- A 64-bit integer, stored at the pointer. -/
def Write.word (value : Int64) : Write := ⟨0, toBytes 8 value.toUInt64.toNat⟩

namespace Store

/-! ### Arrays -/

/-- A new array.  Its elements are an object of their own, and no larger than any other. -/
def newArray (store : Store) (elements : List Int64) : Except Fault (UInt64 × Store) :=
  if maxBlockSize < 8 * elements.length then .error .badBlock
  else
    (store.alloc ⟨32, 8⟩ (.array elements 0)).map fun (address, store) =>
      (address, store.count .array 1)

/-- End an array. -/
def dropArray (store : Store) (address : UInt64) : Except Fault Store :=
  match store.get? address with
  | some (.array ..) => .ok ((store.erase address).count .array (-1))
  | _ => .error (.badPointer address)

/-- A fresh iterator over an array.  The array is not looked at. -/
def arrayGetiter (store : Store) (array : UInt64) : Except Fault (UInt64 × Store) :=
  (store.alloc ⟨16, 8⟩ (.block ⟨16, 8⟩ [array, 0])).map fun (address, store) =>
    (address, store.count .arrayIter 1)

/-- Advance an iterator over an array.  The array counts the call, also behind its end.
A block of zeros passes for an array without elements. -/
def arrayNext (store : Store) (address : UInt64) : Except Fault Step :=
  match store.blockAt address with
  | .error fault => .error fault
  | .ok (block, words) =>
    let array := words.peek 0
    let index := words.peek 1
    match store.get? array with
    | some (.array elements nextCalls) =>
      -- a call is counted whether or not there is an element
      let store := store.set array (.array elements (nextCalls + 1))
      match elements[index.toNat]? with
      | some value =>
        .ok ⟨Status.ok, [.word value], store.set address (.block block (words.poke 1 (index + 1)))⟩
      | none => .ok ⟨Status.stop, [], store⟩
    | some (.block _ zeros) =>
      if zeros.all (· = 0) then .ok ⟨Status.stop, [], store⟩ else .error (.badPointer array)
    | _ => .error (.badPointer array)

/-- End an iterator over an array.  Null is no iterator and left alone. -/
def arrayRelease (store : Store) (address : UInt64) : Except Fault Store :=
  if address = 0 then .ok store
  else (store.reclaim address).map fun store => store.count .arrayIter (-1)

/-! ### Ranges -/

/-- A new range. -/
def newRange (store : Store) (start stop : Int64) : Except Fault (UInt64 × Store) :=
  (store.alloc ⟨24, 8⟩ (.block ⟨24, 8⟩ [start.toUInt64, stop.toUInt64, 0])).map
    fun (address, store) => (address, store.count .rangeIter 1)

/-- The index of the number of calls in the record of a range. -/
def rangeCallsIndex : Nat := 2

/-- Advance a range. -/
def rangeNext (store : Store) (address : UInt64) : Except Fault Step :=
  match store.blockAt address with
  | .error fault => .error fault
  | .ok (block, words) =>
    let current := words.peek 0
    let words := words.poke rangeCallsIndex (words.peek rangeCallsIndex + 1)
    if (words.peek 1).toInt64 ≤ current.toInt64 then
      .ok ⟨Status.stop, [], store.set address (.block block words)⟩
    else
      -- the current number is below another one, so its successor does not wrap
      .ok ⟨Status.ok, [.word current.toInt64],
        store.set address (.block block (words.poke 0 (current + 1)))⟩

/-- End a range.  Null is no range and left alone. -/
def rangeRelease (store : Store) (address : UInt64) : Except Fault Store :=
  if address = 0 then .ok store
  else (store.reclaim address).map fun store => store.count .rangeIter (-1)

@[simp] theorem arrayRelease_zero (store : Store) : store.arrayRelease 0 = .ok store := rfl

@[simp] theorem rangeRelease_zero (store : Store) : store.rangeRelease 0 = .ok store := rfl

/-! ### Generators -/

/-- A new generator. -/
def newGenerator (store : Store) (generator : Generator) : Except Fault (UInt64 × Store) :=
  store.alloc ⟨48, 8⟩ (.generator generator)

/-- Resume a generator. -/
def resumeGenerator (store : Store) (address : UInt64) : Except Fault (Resumption × Store) :=
  match store.get? address with
  | some (.generator generator) =>
    generator.resume.map fun (outcome, generator) => (outcome, store.set address (.generator generator))
  | _ => .error (.badPointer address)

/-- What a resumption stores through the pointer it is given. -/
def resumptionWrites : Resumption → List Write
  | .yielded value => [.word value]
  | .stopped | .errored _ => []

/-- Advance a generator. -/
def generatorNext (store : Store) (address : UInt64) : Except Fault Step :=
  (store.resumeGenerator address).map fun (outcome, store) =>
    ⟨outcome.status, resumptionWrites outcome, store⟩

/-- A generator is advanced by resuming it. -/
theorem generatorNext_of_resume {store : Store} {address : UInt64} {generator after : Generator}
    {outcome : Resumption} (cell : store.get? address = some (.generator generator))
    (h : generator.resume = .ok (outcome, after)) : store.generatorNext address =
      .ok ⟨outcome.status, resumptionWrites outcome, store.set address (.generator after)⟩ := by
  rw [generatorNext, resumeGenerator, cell]
  simp only [h]
  rfl

/-! ### Scripts -/

/-- A new script. -/
def newScript (store : Store) (name : String) (items : List (Status × List UInt8)) :
    Except Fault (UInt64 × Store) :=
  store.alloc ⟨64, 8⟩ (.script ⟨name, items, 0, 0, false⟩)

/-- Start a copy of a script from its first step. -/
def scriptGetiter (store : Store) (address : UInt64) : Except Fault (UInt64 × Store) :=
  match store.get? address with
  | some (.script script) =>
    -- copies are numbered from one
    let copies := script.copies + 1
    let copy : Script := ⟨script.name ++ "#" ++ toString copies, script.items, 0, 0, true⟩
    let store := (store.set address (.script { script with copies := copies })).log
      (.getiter script.name)
    (store.alloc ⟨64, 8⟩ (.script copy)).map fun (address, store) =>
      (address, { store with copies := store.copies + 1 })
  | _ => .error (.badPointer address)

/-- Play the next step of a script.  Its bytes are stored whatever its status word is. -/
def scriptNext (store : Store) (address : UInt64) : Except Fault Step :=
  match store.get? address with
  | some (.script script) =>
    match script.items[script.position]? with
    | some (status, bytes) =>
      .ok ⟨status, [⟨0, bytes⟩],
        (store.set address (.script { script with position := script.position + 1 })).log
          (.next script.name status)⟩
    | none => .ok ⟨Status.stop, [], store.log (.ended script.name)⟩
  | _ => .error (.badPointer address)

/-- End a script. -/
def scriptRelease (store : Store) (address : UInt64) : Except Fault Store :=
  match store.get? address with
  | some (.script script) =>
    let store := (store.erase address).log (.release script.name)
    .ok (if script.isCopy then { store with copies := store.copies - 1 } else store)
  | _ => .error (.badPointer address)

/-! ### Storage -/

/-- Get a block of zeros, counted by the tag of what it is for. -/
def allocBlock (store : Store) (size align : Int) (tag : Int32) : Except Fault (UInt64 × Store) :=
  match Block.of size align with
  | .error fault => .error fault
  | .ok block =>
    (store.alloc block (.block block [])).map fun (address, store) =>
      (address, store.countTag tag 1)

/-- Give storage back.  Null is no storage and left alone, and nobody asks for its size. -/
def freeBlock (store : Store) (address : UInt64) (size align : Int) (tag : Int32) :
    Except Fault Store :=
  if address = 0 then .ok store
  else
    match Block.of size align with
    | .error fault => .error fault
    | .ok _ => (store.reclaim address).map fun store => store.countTag tag (-1)

@[simp] theorem freeBlock_zero (store : Store) (size align : Int) (tag : Int32) :
    store.freeBlock 0 size align tag = .ok store := rfl

end Store

end PullIter
