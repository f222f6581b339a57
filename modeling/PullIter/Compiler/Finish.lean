import PullIter.Compiler.Basic

/-!
# Finished units

Finishing a unit emits and defines every lowered body in the order in which they were
declared.  A finished unit hands out the code of its entry points.

## Main definitions

* `Compiler.finish` — emit and define the bodies, or report the first refusal.
* `Compiled` — a finished unit.
* `Compiled.entryCode` — the code of an entry point, as the host finds it.
* `Compiled.callCode?` — the code that a symbol stands for in a lowered body.
-/

namespace PullIter

/-- A finished unit. -/
structure Compiled where
  decls : Declarations
  registry : Registry
  deriving Repr

/-- What a function pointer points at. -/
inductive Code
  /-- The lowered body of an entry point. -/
  | body (entry : Entry)
  /-- The code behind a symbol. -/
  | provided (provider : Provider)
  deriving DecidableEq, Repr

namespace Compiler

/-- Emit and define the body of one entry point. -/
def defineBody (registry : Registry) (decls : Declarations) (entry : Entry) (id : Option Nat) :
    Except Fault (Except Error Declarations) :=
  match id with
  | none => .ok (.error (.internal "entry point was never declared" (some entry.symbolName)))
  | some id =>
    match entry.body with
    | .error e => .ok (.error e)
    | .ok instrs =>
      -- a call that cannot be emitted is refused before the body is defined
      match Instr.emit registry decls instrs with
      | .error e => .ok (.error e)
      | .ok fits => decls.define id entry.symbolName fits

/-- Emit and define bodies in order, up to the first refusal. -/
def defineBodies (registry : Registry) (decls : Declarations) :
    List (Entry × Option Nat) → Except Fault (Except Error Declarations)
  | [] => .ok (.ok decls)
  | (entry, id) :: rest =>
    match defineBody registry decls entry id with
    | .error fault => .error fault
    | .ok (.error e) => .ok (.error e)
    | .ok (.ok decls) => defineBodies registry decls rest

/-- Finish a unit.  A unit that has failed answers with its error. -/
def finish (unit : Compiler) : Except Fault (Except Error Compiled) :=
  match unit.failure with
  | some e => .ok (.error e)
  | none =>
    (defineBodies unit.registry unit.decls unit.registry.lowered).map fun result =>
      result.map fun decls => ⟨decls, unit.registry⟩

end Compiler

namespace Compiled

/-- The code of an entry point.  An entry point that is bound to a symbol is the code that
the symbol is linked to. -/
def entryCode (unit : Compiled) (entry : Entry) : Except Error Code :=
  match unit.registry.entryKey? entry with
  | none => .error (.notFound "compiled entry point" entry.symbolName)
  | some key =>
    -- a bound entry point is what its symbol is linked to, not what bears its name
    match unit.registry.name? key with
    | some (.imported symbol) =>
      match unit.decls.provider? symbol with
      | some provider => .ok (.provided provider)
      | none => .error (.notFound "external symbol" symbol)
    | _ =>
      match unit.registry.id? key with
      | some _ => .ok (.body entry)
      | none => .error (.internal "entry point has no id" (unit.registry.display? key))

/-- The entry point is available. -/
def isAvailable (unit : Compiled) (entry : Entry) : Bool := (unit.entryCode entry).isOk

/-- The code that a symbol stands for when a lowered body calls it.  A name that has a
lowered body of its own stands for that body, and any other name for what it is linked
to. -/
def callCode? (unit : Compiled) (symbol : String) : Option Code :=
  match unit.registry.lowered.find? fun (entry, _) => entry.symbolName == symbol with
  | some (entry, _) => some (.body entry)
  | none => (unit.decls.provider? symbol).map .provided

/-- The names whose machine code is kept as text. -/
def listing (unit : Compiled) : List String := unit.decls.listed

end Compiled

end PullIter
