import PullIter.Provider
import PullIter.Store.Routines

/-!
# Calls of routines

A symbol may stand for any routine, whatever shape it is called in.  The routine takes the
words it is given for its own arguments, in order, and the caller takes what the routine
returns for its result.

What neither side provides cannot be relied on.  A tag that is not passed counts nothing,
what is stored through a pointer that is not passed is lost, and where a routine returns
nothing, the caller finds a word that is no object's address.

## Main definitions

* `Called` — what is left of a call.
* `Provider.call` — a routine called with some words.
* `Provider.next`, `Provider.getiter`, `Provider.release`, `Provider.alloc`,
  `Provider.free` — a routine called in a shape.

## Main results

* `getiter_eq_call`, `release_eq_call` — a shape of one argument passes that argument.
-/

namespace PullIter

/-- What is left of a call of a routine. -/
structure Called where
  /-- The word that it returned, if it returns one. -/
  result : Option UInt64
  /-- What it stored, relative to the pointer that it was given second. -/
  writes : List Write
  store : Store
  deriving DecidableEq, Repr

namespace Called

/-- A routine that returns an address. -/
def address (made : UInt64 × Store) : Called := ⟨some made.1, [], made.2⟩

/-- A routine that advances an iterator returns its status word. -/
def step (step : Step) : Called := ⟨some step.status.toUInt32.toUInt64, step.writes, step.store⟩

/-- A routine that returns nothing. -/
def nothing (store : Store) : Called := ⟨none, [], store⟩

end Called

/-- The word that a caller finds where a routine returned nothing.  It is not null, and no
object is there. -/
def strayWord : UInt64 := 1

/-- A tag that no allocation is counted by. -/
def noTag : Int32 := -1

/-- A size or an alignment that a routine was given; one that it was not given counts as
zero. -/
def sizeArg (args : List UInt64) (index : Nat) : Int := ((args[index]?).getD 0).toInt64.toInt

/-- The tag that a routine was given. -/
def tagArg (args : List UInt64) (index : Nat) : Int32 :=
  match args[index]? with
  | some word => word.toUInt32.toInt32
  | none => noTag

namespace Provider

/-- Call a routine with some words for its arguments. -/
def call (provider : Provider) (args : List UInt64) (store : Store) : Except Fault Called :=
  let first := args.headD 0
  match provider with
  | intrinsic .alloc =>
    (store.allocBlock (sizeArg args 0) (sizeArg args 1) (tagArg args 2)).map .address
  | intrinsic .free =>
    (store.freeBlock first (sizeArg args 1) (sizeArg args 2) (tagArg args 3)).map .nothing
  | intrinsic .arrayGetiter => (store.arrayGetiter first).map .address
  | intrinsic .arrayNext => (store.arrayNext first).map .step
  | intrinsic .arrayRelease => (store.arrayRelease first).map .nothing
  | intrinsic .rangeNext => (store.rangeNext first).map .step
  | intrinsic .rangeRelease => (store.rangeRelease first).map .nothing
  | intrinsic .generatorResume => (store.generatorNext first).map .step
  | scriptNext => (store.scriptNext first).map .step
  | scriptGetiter => (store.scriptGetiter first).map .address
  | scriptRelease => (store.scriptRelease first).map .nothing
  | foreign => .error (.wrongCode provider.name)

/-- Call a routine for an address. -/
def callForAddress (provider : Provider) (args : List UInt64) (store : Store) :
    Except Fault (UInt64 × Store) :=
  (provider.call args store).map fun called => (called.result.getD strayWord, called.store)

/-- Call a routine for what it does only. -/
def callForEffect (provider : Provider) (args : List UInt64) (store : Store) :
    Except Fault Store :=
  (provider.call args store).map Called.store

/-- Advance an iterator by a routine.  Only a routine that returns a word leaves a status
word. -/
def next (provider : Provider) (address : UInt64) (store : Store) : Except Fault Step :=
  match provider with
  | intrinsic .arrayNext => store.arrayNext address
  | intrinsic .rangeNext => store.rangeNext address
  | intrinsic .generatorResume => store.generatorNext address
  | scriptNext => store.scriptNext address
  | other =>
    match other.call [address] store with
    | .error fault => .error fault
    | .ok ⟨some word, writes, store⟩ => .ok ⟨word.toUInt32.toInt32, writes, store⟩
    | .ok ⟨none, _, _⟩ => .error (.wrongCode other.name)

/-- Make an iterator by a routine. -/
def getiter (provider : Provider) (address : UInt64) (store : Store) :
    Except Fault (UInt64 × Store) :=
  match provider with
  | intrinsic .arrayGetiter => store.arrayGetiter address
  | scriptGetiter => store.scriptGetiter address
  | other => other.callForAddress [address] store

/-- End an iterator by a routine. -/
def release (provider : Provider) (address : UInt64) (store : Store) : Except Fault Store :=
  match provider with
  | intrinsic .arrayRelease => store.arrayRelease address
  | intrinsic .rangeRelease => store.rangeRelease address
  | scriptRelease => store.scriptRelease address
  | other => other.callForEffect [address] store

/-- Get storage by a routine. -/
def alloc (provider : Provider) (size align : Nat) (tag : Int32) (store : Store) :
    Except Fault (UInt64 × Store) :=
  match provider with
  | intrinsic .alloc => store.allocBlock size align tag
  | other => other.callForAddress [.ofNat size, .ofNat align, tag.toUInt32.toUInt64] store

/-- Give storage back by a routine. -/
def free (provider : Provider) (address : UInt64) (size align : Nat) (tag : Int32) (store : Store) :
    Except Fault Store :=
  match provider with
  | intrinsic .free => store.freeBlock address size align tag
  | other => other.callForEffect [address, .ofNat size, .ofNat align, tag.toUInt32.toUInt64] store

/-- A routine that makes an iterator is given the address, and so is any other. -/
theorem getiter_eq_call (provider : Provider) (address : UInt64) (store : Store) :
    provider.getiter address store = provider.callForAddress [address] store := by
  unfold getiter
  split
  · simp only [callForAddress, call, List.headD_cons]
    cases store.arrayGetiter address <;> rfl
  · simp only [callForAddress, call, List.headD_cons]
    cases store.scriptGetiter address <;> rfl
  · rfl

/-- A routine that ends an iterator is given the address, and so is any other. -/
theorem release_eq_call (provider : Provider) (address : UInt64) (store : Store) :
    provider.release address store = provider.callForEffect [address] store := by
  unfold release
  split
  · simp only [callForEffect, call, List.headD_cons]
    cases store.arrayRelease address <;> rfl
  · simp only [callForEffect, call, List.headD_cons]
    cases store.rangeRelease address <;> rfl
  · simp only [callForEffect, call, List.headD_cons]
    cases store.scriptRelease address <;> rfl
  · rfl

end Provider

end PullIter
