import PullIter.Exec.Body

/-!
# Linking

A symbol that a lowered body calls stands for the code it is linked to, or for another
lowered body if one bears its name.  Bodies that reach each other in this way may call each
other to some depth.

## Main definitions

* `Provider.linkedNext`, `Provider.linkedGetiter`, .. — a linked routine called, and the call
  noted.
* `Compiled.linkage` — what symbols do when bodies of a unit call them.
* `Compiled.callDepth` — the depth that suffices in a store.
* `Compiled.next`, `Compiled.getiter`, `Compiled.release`, `Compiled.construct`,
  `Compiled.forEach` — call a function pointer of a unit.
-/

namespace PullIter

namespace Provider

/-- Advance an iterator by a linked routine. -/
def linkedNext (provider : Provider) (iterator : UInt64) (store : Store) : Except Fault Step :=
  (provider.next iterator store).map fun step =>
    { step with store := step.store.called (.next provider iterator step.status) }

/-- Make an iterator by a linked routine. -/
def linkedGetiter (provider : Provider) (value : UInt64) (store : Store) :
    Except Fault (UInt64 × Store) :=
  (provider.getiter value store).map fun (iterator, store) =>
    (iterator, store.called (.getiter provider value iterator))

/-- End an iterator by a linked routine. -/
def linkedRelease (provider : Provider) (iterator : UInt64) (store : Store) : Except Fault Store :=
  (provider.release iterator store).map fun store => store.called (.release provider iterator)

/-- Get storage for the state of a combinator by a linked routine. -/
def linkedAlloc (provider : Provider) (layout : Layout) (store : Store) :
    Except Fault (UInt64 × Store) :=
  let tag := AllocKind.combinatorState.tag
  (provider.alloc layout.size layout.align tag store).map fun (state, store) =>
    (state, store.called (.alloc provider layout.size layout.align tag state))

/-- Give the storage back by a linked routine. -/
def linkedFree (provider : Provider) (layout : Layout) (state : UInt64) (store : Store) :
    Except Fault Store :=
  let tag := AllocKind.combinatorState.tag
  (provider.free state layout.size layout.align tag store).map fun store =>
    store.called (.free provider state layout.size layout.align tag)

end Provider

namespace Code

/-- Call the code as a function that advances an iterator. -/
def next (link : Linkage) (code : Code) (iterator : UInt64) (store : Store) : Except Fault Step :=
  match code with
  | .body ⟨.iternext, kind⟩ => Exec.next link kind iterator store
  | .body entry => .error (.wrongCode entry.symbolName)
  | .provided provider => provider.linkedNext iterator store

/-- Call the code as a function that makes an iterator.  A constructor has the same shape: it
takes the value for its argument record. -/
def getiter (link : Linkage) (code : Code) (value : UInt64) (store : Store) :
    Except Fault (UInt64 × Store) :=
  match code with
  | .body ⟨.getiter, kind⟩ => Exec.getiter link kind value store
  | .body ⟨.construct args, kind⟩ =>
    let size := ((Entry.argsLayout? kind args).map Layout.size).getD 0
    Exec.construct link kind args (store.bytesAt value size) store
  | .body entry => .error (.wrongCode entry.symbolName)
  | .provided provider => provider.linkedGetiter value store

/-- Call the code as a function that releases an iterator.  A function that makes one may be
called in this shape as well. -/
def release (link : Linkage) (code : Code) (iterator : UInt64) (store : Store) :
    Except Fault Store :=
  match code with
  | .body ⟨.release, kind⟩ => Exec.release link kind iterator store
  | .body entry => (Code.getiter link (.body entry) iterator store).map Prod.snd
  | .provided provider => provider.linkedRelease iterator store

/-- Call the code as a constructor. -/
def construct (link : Linkage) (code : Code) (record : List UInt8) (store : Store) :
    Except Fault (UInt64 × Store) :=
  match code with
  | .body ⟨.construct args, kind⟩ => Exec.construct link kind args record store
  | .body entry => .error (.wrongCode entry.symbolName)
  | .provided provider => .error (.wrongCode provider.name)

/-- Call the code to get storage for the state of a combinator.  No body has this shape. -/
def alloc (code : Code) (layout : Layout) (store : Store) : Except Fault (UInt64 × Store) :=
  match code with
  | .body entry => .error (.wrongCode entry.symbolName)
  | .provided provider => provider.linkedAlloc layout store

/-- Call the code to give the storage back. -/
def free (code : Code) (layout : Layout) (state : UInt64) (store : Store) : Except Fault Store :=
  match code with
  | .body entry => .error (.wrongCode entry.symbolName)
  | .provided provider => provider.linkedFree layout state store

/-- Call the code as a loop. -/
def forEach {σ : Type} (link : Linkage) (code : Code) (sink : Exec.Sink σ) (slot : List UInt8)
    (value : UInt64) (seen : σ) (store : Store) : Except Fault (Status × σ × Store) :=
  match code with
  | .body ⟨.forEach, kind⟩ => Exec.forEach link kind sink slot value seen store
  | .body entry => .error (.wrongCode entry.symbolName)
  | .provided provider => .error (.wrongCode provider.name)

end Code

namespace Compiled

/-- The code that a symbol stands for in a lowered body. -/
def callCode (unit : Compiled) (symbol : String) : Except Fault Code :=
  match unit.callCode? symbol with
  | some code => .ok code
  | none => .error (.noCode symbol)

/-- What symbols do when bodies of the unit call them, where bodies may call each other by
symbols up to a depth. -/
def linkage (unit : Compiled) : Nat → Linkage
  | 0 =>
    { next := fun _ _ _ => .error .callDepth
      getiter := fun _ _ _ => .error .callDepth
      release := fun _ _ _ => .error .callDepth
      alloc := fun _ _ => .error .callDepth
      free := fun _ _ _ => .error .callDepth }
  | depth + 1 =>
    { next := fun symbol iterator store =>
        match unit.callCode symbol with
        | .error fault => .error fault
        | .ok code => code.next (unit.linkage depth) iterator store
      getiter := fun symbol value store =>
        match unit.callCode symbol with
        | .error fault => .error fault
        | .ok code => code.getiter (unit.linkage depth) value store
      release := fun symbol iterator store =>
        match unit.callCode symbol with
        | .error fault => .error fault
        | .ok code => code.release (unit.linkage depth) iterator store
      -- the memory primitives are called under their own names
      alloc := fun layout store =>
        match unit.callCode Intrinsic.alloc.name with
        | .error fault => .error fault
        | .ok code => code.alloc layout store
      free := fun layout state store =>
        match unit.callCode Intrinsic.free.name with
        | .error fault => .error fault
        | .ok code => code.free layout state store }

/-- A depth of calls that no run in the store exceeds: a body that is entered again for the
same object, with as many values left, is entered without end. -/
def callDepth (unit : Compiled) (store : Store) : Nat :=
  (unit.registry.lowered.length + 1) * (store.cells.length + 1) * (store.rounds + 1) + 1

/-- The linkage for a run in a store. -/
def linked (unit : Compiled) (store : Store) : Linkage := unit.linkage (unit.callDepth store)

/-- Advance an iterator. -/
def next (unit : Compiled) (code : Code) (iterator : UInt64) (store : Store) : Except Fault Step :=
  code.next (unit.linked store) iterator store

/-- Make an iterator. -/
def getiter (unit : Compiled) (code : Code) (value : UInt64) (store : Store) :
    Except Fault (UInt64 × Store) :=
  code.getiter (unit.linked store) value store

/-- Release an iterator. -/
def release (unit : Compiled) (code : Code) (iterator : UInt64) (store : Store) :
    Except Fault Store :=
  code.release (unit.linked store) iterator store

/-- Make a combinator. -/
def construct (unit : Compiled) (code : Code) (record : List UInt8) (store : Store) :
    Except Fault (UInt64 × Store) :=
  code.construct (unit.linked store) record store

/-- Run a loop. -/
def forEach {σ : Type} (unit : Compiled) (code : Code) (sink : Exec.Sink σ) (slot : List UInt8)
    (value : UInt64) (seen : σ) (store : Store) : Except Fault (Status × σ × Store) :=
  code.forEach (unit.linked store) sink slot value seen store

end Compiled

end PullIter
