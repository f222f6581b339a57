/-!
# Options of the code generator

## Main definitions

* `Options` — the switches and the usual settings of them.
* `Options.ofEnvironment` — the settings that environment variables ask for.
-/

namespace PullIter

/-- The switches of the code generator. -/
structure Options where
  /-- Bodies are not verified. -/
  release : Bool
  /-- The machine code of every body is kept as text. -/
  disasm : Bool
  /-- Every body is logged before it is defined. -/
  dumpIr : Bool
  deriving DecidableEq, Repr

namespace Options

/-- The usual settings: bodies are verified and nothing is kept. -/
def debug : Options := ⟨false, false, false⟩

/-- Without the verifier. -/
def fast : Options := { debug with release := true }

/-- With the text of the machine code. -/
def listing : Options := { debug with disasm := true }

/-- A variable is set if it is there and its text is not `0`. -/
def isSet (text : Option String) : Bool :=
  match text with
  | some text => text ≠ "0"
  | none => false

/-- The usual settings, changed by two environment variables. -/
def ofEnvironment (lookup : String → Option String) : Options :=
  ⟨isSet (lookup "SHREW_RELEASE"), false, isSet (lookup "SHREW_DUMP_IR")⟩

end Options

end PullIter
