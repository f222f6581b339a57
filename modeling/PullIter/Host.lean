import PullIter.Exec.Link
import PullIter.Layout.ArgRecord

/-!
# The host side

The host calls the entry points of a finished unit through wrappers: it packs arguments,
decodes values, and remembers what it owns.  A wrapper looks up all the code it needs before
it calls any.

## Main definitions

* `Hosted` — an answer, or an error, with the store after it.
* `Compiled.hostConstruct` — make a combinator.
* `Handle` — an iterator that the host holds, with `Handle.step`, `Handle.drain` and
  `Handle.drop`.
* `Compiled.hostForEach` — run a loop with a sink that records values and may panic.
-/

namespace PullIter

/-- What a call by the host ends with: an answer or an error, and the store.  A fault ends
everything. -/
abbrev Hosted (α : Type) := Except Fault (Except Error α × Store)

/-- A combinator that the host has made. -/
structure Constructed where
  address : UInt64
  /-- The code that releases it, if it has to be released. -/
  release : Option Code
  deriving DecidableEq, Repr

/-- An iterator that the host holds. -/
structure Handle where
  iterator : UInt64
  next : Code
  /-- The code that releases the iterator, if the host owns it. -/
  release : Option Code
  ownership : Ownership
  layout : Layout
  /-- The buffer that steps store into; it is kept from step to step. -/
  buffer : List UInt8
  deriving Repr

namespace Compiled

/-- The code that releases values of a kind, if they have to be released. -/
def releaseCode (unit : Compiled) (kind : Kind) : Except Error (Option Code) :=
  if kind.needsRelease then (unit.entryCode ⟨.release, kind⟩).map some else .ok none

/-- Make a combinator from arguments. -/
def hostConstruct (unit : Compiled) (kind : Kind) (args : List Arg) (store : Store) :
    Hosted Constructed :=
  let kinds := args.map Arg.kind
  match Entry.argsLayout? kind kinds with
  | none => .ok (.error (.unsupported "constructor" (some kind.name)), store)
  | some layout =>
    match Arg.pack layout args with
    | .error fault => .error fault
    | .ok (.error e) => .ok (.error e, store)
    | .ok (.ok record) =>
      -- whatever is missing is noticed before any code runs
      match unit.entryCode ⟨.construct kinds, kind⟩, unit.releaseCode kind with
      | .error e, _ | _, .error e => .ok (.error e, store)
      | .ok code, .ok release =>
        (unit.construct code record store).map fun (address, store) =>
          (.ok ⟨address, release⟩, store)

/-- End a combinator. -/
def hostDrop (unit : Compiled) (value : Constructed) (store : Store) : Except Fault Store :=
  match value.release with
  | none => .ok store
  | some code => unit.release code value.address store

/-- Make an iterator of a value. -/
def hostIter (unit : Compiled) (kind : Kind) (value : UInt64) (store : Store) : Hosted Handle :=
  let made := kind.iteratorKind
  match unit.entryCode ⟨.getiter, kind⟩, unit.entryCode ⟨.iternext, made⟩ with
  | .error e, _ | _, .error e => .ok (.error e, store)
  | .ok getiter, .ok next =>
    -- an alias is never released, whatever its kind
    match (if kind.ownership = .owned then unit.releaseCode made else .ok none) with
    | .error e => .ok (.error e, store)
    | .ok release =>
      let layout := Entry.yieldLayout kind
      (unit.getiter getiter value store).map fun (iterator, store) =>
        (.ok ⟨iterator, next, release, kind.ownership, layout,
          List.replicate (Arg.paddedSize layout.size) 0⟩, store)

end Compiled

namespace Handle

/-- Advance by one step.  The value is decoded only if there is one. -/
def step (unit : Compiled) (handle : Handle) (store : Store) :
    Except Fault (Outcome × Handle × Store) :=
  match unit.next handle.next handle.iterator store with
  | .error fault => .error fault
  | .ok step =>
    let handle := { handle with buffer := applyWrites handle.buffer step.writes }
    match step.status.classify with
    | .stop => .ok (.exhausted, handle, step.store)
    | .failure code => .ok (.failure code, handle, step.store)
    | .ok =>
      match handle.layout.read handle.buffer with
      | .error fault => .error fault
      | .ok none => .error (.outOfBounds 0 handle.layout.size)
      | .ok (some value) => .ok (.valid value, handle, step.store)

/-- Advance until there is no value any more, at most `fuel` times. -/
def drainWithin (unit : Compiled) : Nat → Handle → Store →
    Except Fault ((List Value × LoopExit) × Handle × Store)
  | 0, _, _ => .error .endlessLoop
  | fuel + 1, handle, store =>
    match handle.step unit store with
    | .error fault => .error fault
    | .ok (.valid value, handle, store) =>
      (drainWithin unit fuel handle store).map fun ((values, ending), rest) =>
        ((value :: values, ending), rest)
    | .ok (.exhausted, handle, store) => .ok (([], .exhausted), handle, store)
    | .ok (.failure code, handle, store) => .ok (([], .failed code), handle, store)

/-- Advance until there is no value any more. -/
def drain (unit : Compiled) (handle : Handle) (store : Store) :
    Except Fault ((List Value × LoopExit) × Handle × Store) :=
  drainWithin unit (store.rounds + 1) handle store

/-- End the handle; an owned iterator is released. -/
def drop (unit : Compiled) (handle : Handle) (store : Store) : Except Fault Store :=
  match handle.release with
  | none => .ok store
  | some code => unit.release code handle.iterator store

end Handle

/-! ### Loops with a recording sink -/

/-- A sink that records every value, the newest first, and panics on the value with a given
number, counted from one. -/
structure Recorder where
  seen : List Value
  /-- The number of the value it panics on, and with what text. -/
  trap : Option (Nat × String)
  /-- The text of the panic that was raised. -/
  panicked : Option String
  deriving DecidableEq

namespace Recorder

/-- A sink that has recorded nothing yet. -/
def start (trap : Option (Nat × String)) : Recorder := ⟨[], trap, none⟩

/-- The recorded values in order. -/
def values (recorder : Recorder) : List Value := recorder.seen.reverse

/-- Record a value.  On the value it panics on, the value is recorded as well. -/
def accept (recorder : Recorder) (value : Value) : Recorder :=
  let seen := value :: recorder.seen
  { recorder with
    seen := seen
    panicked := (recorder.trap.filter fun trap => trap.1 = seen.length).map Prod.snd }

/-- The sink that compiled code calls.  A panic does not cross compiled code: it is kept,
and the loop is told to end. -/
def sink (layout : Layout) : Exec.Sink Recorder := fun bytes recorder =>
  match layout.read bytes with
  | .error fault => .error fault
  | .ok none => .ok (Status.error, recorder)
  | .ok (some value) =>
    -- the value a sink panics on has been seen all the same
    let recorder := recorder.accept value
    .ok (if recorder.panicked.isSome then Status.error else Status.ok, recorder)

end Recorder

/-- How a loop of the host ended. -/
inductive LoopEnd
  | exit (exit : LoopExit)
  /-- The sink panicked with a text, and the panic was raised again. -/
  | panicked (text : String)
  deriving DecidableEq, Repr

/-- How a loop ended: a kept panic comes first. -/
def Recorder.ending (recorder : Recorder) (status : Status) : LoopEnd :=
  match recorder.panicked with
  | some text => .panicked text
  | none => .exit (LoopExit.ofStatus status)

/-- Run a loop over a value with a recording sink.  The slot is on the stack of the compiled
loop, so the host has no say in what it holds. -/
def Compiled.hostForEach (unit : Compiled) (kind : Kind) (value : UInt64)
    (trap : Option (Nat × String)) (slot : List UInt8) (store : Store) :
    Hosted (List Value × LoopEnd) :=
  match unit.entryCode ⟨.forEach, kind⟩ with
  | .error e => .ok (.error e, store)
  | .ok code =>
    (unit.forEach code (Recorder.sink (Entry.yieldLayout kind)) slot value (Recorder.start trap)
      store).map fun (status, recorder, store) =>
        (.ok (recorder.values, recorder.ending status), store)

end PullIter
