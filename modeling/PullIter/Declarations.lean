import PullIter.Error
import PullIter.Fault
import PullIter.Options
import PullIter.Provider
import PullIter.Text.Quoted

/-!
# Declarations

The names that the code generator knows.  A name is declared once and keeps its
identity and its signature, whether it is imported, exported or both; a symbol can
be imported only if it can be linked.

## Main definitions

* `Declarations` — the names, and what has been exported, imported and defined.
* `Declarations.declare`, `Declarations.importSymbol` — declare a name.
* `Declarations.define` — give a name its body.

## Main results

* `declareName_id_eq` — a declared name keeps its identity.
-/

namespace PullIter

/-- The width of a pointer, in bytes, on the target of the code generator. -/
def targetPointerBytes : Nat := 8

/-- The names that the code generator knows. -/
structure Declarations where
  options : Options
  /-- What can be linked; of several entries for one name the first counts. -/
  linkable : List (String × Provider)
  /-- The declared names; the identity of a name is its position. -/
  names : List (String × Signature)
  /-- Names that are to have a body, with their identities. -/
  exported : List (String × Nat)
  /-- Symbols that are used, with their identities. -/
  imported : List (String × Nat)
  /-- The identities that have a body. -/
  defined : List Nat
  /-- The names whose machine code is kept as text, in the order of definition. -/
  listed : List String
  deriving Repr

namespace Declarations

/-- The memory primitives, which are imported from the start. -/
def eagerSymbols : List Intrinsic := Intrinsic.all.filter Intrinsic.isEager

/-- The names at the start.  A registered symbol hides an earlier one of its name, and
also a built-in symbol. -/
def create (options : Options) (externals : List (String × Provider)) : Declarations where
  options := options
  -- the last registration of a name comes first
  linkable := externals.reverse ++ Provider.ofIntrinsics
  names := eagerSymbols.map fun symbol => (symbol.name, symbol.shape.signature targetPointerBytes)
  exported := []
  imported := eagerSymbols.zipIdx.map fun (symbol, id) => (symbol.name, id)
  defined := []
  listed := []

/-- The code behind a symbol that can be linked. -/
def provider? (decls : Declarations) (name : String) : Option Provider := decls.linkable.lookup name

/-- The symbol can be linked. -/
def hasSymbol (decls : Declarations) (name : String) : Bool := (decls.provider? name).isSome

/-- The identity of a declared name. -/
def id? (decls : Declarations) (name : String) : Option Nat :=
  decls.names.findIdx? fun declared => declared.1 == name

/-- The signature of a declared name. -/
def signature? (decls : Declarations) (name : String) : Option Signature := decls.names.lookup name

/-- Declare a name with a signature.  A name that is known keeps its identity, and its
signature has to be the same. -/
def declareName (decls : Declarations) (name : String) (signature : Signature) :
    Except Error (Nat × Declarations) :=
  match decls.id? name with
  | some id =>
    if decls.signature? name = some signature then .ok (id, decls)
    else .error (.incompatible name)
  | none => .ok (decls.names.length, { decls with names := decls.names ++ [(name, signature)] })

/-- Note a name with an identity, unless it is there. -/
def note (table : List (String × Nat)) (name : String) (id : Nat) : List (String × Nat) :=
  if (table.lookup name).isSome then table else table ++ [(name, id)]

/-- Declare a name that is to have a body. -/
def declare (decls : Declarations) (name : String) (signature : Signature) :
    Except Error (Nat × Declarations) :=
  match decls.declareName name signature with
  | .ok (id, decls) => .ok (id, { decls with exported := note decls.exported name id })
  | .error e => .error e

/-- Declare a symbol that is used.  A symbol that was imported before is returned as it
is, whatever the signature. -/
def importSymbol (decls : Declarations) (name : String) (signature : Signature) :
    Except Error (Nat × Declarations) :=
  match decls.imported.lookup name with
  | some id => .ok (id, decls)
  | none =>
    if decls.hasSymbol name then
      match decls.declareName name signature with
      | .ok (id, decls) => .ok (id, { decls with imported := note decls.imported name id })
      | .error e => .error e
    else .error (.notFound "external symbol" name)

/-- Whether an identity has a body. -/
def isDefined (decls : Declarations) (id : Nat) : Bool := decls.defined.contains id

/-- The complaint about a second body for a name. -/
def duplicate (name : String) : Error :=
  .internal "definition failed"
    (some (name ++ ": DuplicateDefinition(" ++ Text.quote name ++ ")"))

/-- Give a name its body.  A second body is refused, and so is a body whose calls do not
have the shapes of the functions that they call; without the verifier the latter is a
fault. -/
def define (decls : Declarations) (id : Nat) (name : String) (callsFit : Bool) :
    Except Fault (Except Error Declarations) :=
  -- a second body is refused before its calls are looked at
  if decls.isDefined id then .ok (.error (duplicate name))
  else if callsFit then
    .ok (.ok { decls with
      defined := decls.defined ++ [id]
      listed := if decls.options.disasm then decls.listed ++ [name] else decls.listed })
  else if decls.options.release then .error (.unverifiedCall name)
  else .ok (.error (.rejectedBody name))

/-- **A declared name keeps its identity.** -/
theorem declareName_id_eq {decls after : Declarations} {name : String} {signature : Signature}
    {id known : Nat} (h : decls.declareName name signature = .ok (id, after))
    (hid : decls.id? name = some known) : id = known ∧ after = decls := by
  unfold declareName at h
  rw [hid] at h
  simp only at h
  split at h
  · simp only [Except.ok.injEq, Prod.mk.injEq] at h
    exact ⟨h.1.symm, h.2.symm⟩
  · cases h

end Declarations

end PullIter
