import PullIter.Intrinsic

/-!
# Providers

The code that a registered symbol stands for: a built-in routine, or one of the
routines that work on scripts, which answer from a prepared list of steps.

## Main definitions

* `Provider` — the code behind a symbol.
* `Provider.ofIntrinsics` — what the built-in symbols stand for.
-/

namespace PullIter

/-- The code behind a symbol. -/
inductive Provider
  /-- A built-in routine. -/
  | intrinsic (routine : Intrinsic)
  /-- Play the next step of a script. -/
  | scriptNext
  /-- Start a fresh copy of a script. -/
  | scriptGetiter
  /-- End a script. -/
  | scriptRelease
  /-- Code of which nothing is known but its address. -/
  | foreign
  deriving DecidableEq, Repr

namespace Provider

/-- The written name. -/
def name : Provider → String
  | intrinsic routine => routine.name
  | scriptNext => "script_next"
  | scriptGetiter => "script_getiter"
  | scriptRelease => "script_release"
  | foreign => "foreign"

/-- The built-in symbols with the routines they stand for. -/
def ofIntrinsics : List (String × Provider) :=
  Intrinsic.all.map fun routine => (routine.name, intrinsic routine)

end Provider

end PullIter
