import PullIter.Declarations

/-!
# A bench for declarations

Declare names, give some of them constants as bodies, make the bodies final and call them.

## Main definitions

* `Workbench` — declarations with the constants that are defined and final.
* `Workbench.act`, `Workbench.run` — one step, and all steps on a fresh bench.
-/

namespace PullIter

/-- Declarations with the constants that are their bodies. -/
structure Workbench where
  decls : Declarations
  /-- The constants, by identity. -/
  constants : List (Nat × Int64)
  /-- The identities whose bodies are final. -/
  final : List Nat

namespace Workbench

/-- One step on a bench. -/
inductive Action
  | pointerType
  | hasSymbol (name : String)
  | signature (signature : Signature)
  | declare (name : String) (signature : Signature)
  | importSymbol (name : String) (signature : Signature)
  /-- Declare a function that returns a constant, and define it. -/
  | defineConst (name : String) (value : Int64)
  | finalize
  | call (name : String)
  | state
  deriving Repr

/-- What a step answers. -/
inductive Answer
  | register (register : Register)
  /-- Whether the symbol can be linked, and whether it has an address. -/
  | symbol (known addressed : Bool)
  | signature (signature : Signature)
  | id (id : Nat)
  | error (e : Error)
  | ok
  | none
  | value (value : Int64)
  | state (declared imported : List (String × Nat)) (listed : List String)

/-- A fresh bench. -/
def create (options : Options) (symbols : List (String × Provider)) : Workbench :=
  ⟨.create options symbols, [], []⟩

/-- The signature of a function that returns a constant. -/
def constSignature : Signature := ⟨[], [.i64]⟩

/-- A table in the order of its names. -/
def sorted (table : List (String × Nat)) : List (String × Nat) :=
  table.mergeSort fun a b => a.1 ≤ b.1

/-- The answer of a declaration. -/
def declared (bench : Workbench) (result : Except Error (Nat × Declarations)) : Answer × Workbench :=
  match result with
  | .error e => (.error e, bench)
  | .ok (id, decls) => (.id id, { bench with decls := decls })

/-- One step: its answer, and the bench after it.  Calling what has no final body is a
fault. -/
def act (bench : Workbench) : Action → Except Fault (Answer × Workbench)
  | .pointerType => .ok (.register (Register.pointer targetPointerBytes), bench)
  | .hasSymbol name =>
    .ok (.symbol (bench.decls.hasSymbol name) (bench.decls.provider? name).isSome, bench)
  | .signature signature => .ok (.signature signature, bench)
  | .declare name signature => .ok (bench.declared (bench.decls.declare name signature))
  | .importSymbol name signature => .ok (bench.declared (bench.decls.importSymbol name signature))
  | .defineConst name value =>
    match bench.decls.declare name constSignature with
    | .error e => .ok (.error e, bench)
    | .ok (id, decls) =>
      (decls.define id name true).map fun
        | .error e => (.error e, { bench with decls := decls })
        | .ok decls =>
          (.id id, { bench with decls := decls, constants := (id, value) :: bench.constants })
  | .finalize => .ok (.ok, { bench with final := bench.decls.defined })
  | .call name =>
    match bench.decls.exported.lookup name with
    | none => .ok (.none, bench)
    | some id =>
      match bench.final.contains id, bench.constants.lookup id with
      | true, some value => .ok (.value value, bench)
      | _, _ => .error (.noCode name)
  | .state =>
    .ok (.state (sorted bench.decls.exported) (sorted bench.decls.imported) bench.decls.listed, bench)

/-- The answers to steps in order. -/
def answers (bench : Workbench) : List Action → Except Fault (List Answer)
  | [] => .ok []
  | action :: rest =>
    match bench.act action with
    | .error fault => .error fault
    | .ok (answer, bench) => (bench.answers rest).map (answer :: ·)

/-- The answers to steps on a fresh bench. -/
def run (options : Options) (symbols : List (String × Provider)) (actions : List Action) :
    Except Fault (List Answer) :=
  (create options symbols).answers actions

end Workbench

end PullIter
