/-!
# Errors

What a compilation unit answers when a request cannot be met, or when the code
generator refuses a body.  Exhaustion and failures of running iterators are no
errors: they travel as status words.

## Main definitions

* `Error` — the causes, with `Error.code`, `Error.help` and `Error.message`.
* `Error.shownMessage` — the message, unless it holds a dump of the code generator.
-/

namespace PullIter

/-- The cause of an error. -/
inductive Error
  /-- The iterator kind has no such entry point or feature. -/
  | unsupported (feature : String) (context : Option String)
  /-- The wrong number of arguments for a constructor. -/
  | argumentCount (function : String) (expected found : Nat)
  /-- An argument or a part is of the wrong type. -/
  | typeMismatch (context expected found : String)
  /-- A symbol or a function is not known. -/
  | notFound (what name : String)
  /-- A broken promise inside the unit, or a refusal of the code generator. -/
  | internal (message : String) (context : Option String)
  /-- Something the unit needs is not there. -/
  | missingResource (resource : String) (context : Option String)
  deriving DecidableEq, Repr, Inhabited

namespace Error

/-- The name of the cause. -/
def name : Error → String
  | unsupported .. => "UnsupportedFeature"
  | argumentCount .. => "ArgumentCount"
  | typeMismatch .. => "TypeMismatch"
  | notFound .. => "NotFound"
  | internal .. => "InternalError"
  | missingResource .. => "MissingResource"

/-- The code of the cause. -/
def code : Error → String
  | unsupported .. => "E3001"
  | argumentCount .. => "E3002"
  | typeMismatch .. => "E3003"
  | notFound .. => "E3004"
  | internal .. => "E3005"
  | missingResource .. => "E3006"

/-- Advice, for the causes that a caller can mend. -/
def help : Error → Option String
  | argumentCount .. => some "combinator arity must match the resolved signature"
  | notFound what _ =>
    if what = "external symbol" then
      some "register the symbol with the compiler before lowering"
    else none
  | _ => none

/-- A context is appended in parentheses. -/
def withContext (text : String) : Option String → String
  | none => text
  | some context => text ++ " (" ++ context ++ ")"

/-- The text of an error. -/
def message : Error → String
  | unsupported feature context => withContext ("unsupported feature: " ++ feature) context
  | argumentCount function expected found =>
    function ++ " expects " ++ toString expected ++ " argument(s), got " ++ toString found
  | typeMismatch context expected found =>
    context ++ ": expected " ++ expected ++ ", found " ++ found
  | notFound what name => what ++ " not found: " ++ name
  | internal message context => withContext ("internal error: " ++ message) context
  | missingResource resource context => withContext ("missing resource: " ++ resource) context

/-- The code generator's complaint about a name that is declared with two signatures. -/
def incompatible (name : String) : Error :=
  .internal "cranelift error"
    (some ("Function " ++ name ++ " is incompatible with previous declaration"))

/-- The refusal of a body that calls a function with arguments of another shape. -/
def rejectedBody (name : String) : Error :=
  .internal "definition failed" (some (name ++ ": Compilation(Verifier)"))

/-- Whether `part` occurs in `text`. -/
def occursIn (part : List Char) : List Char → Bool
  | [] => part.isEmpty
  | c :: text => part.isPrefixOf (c :: text) || occursIn part text

/-- The texts that announce a dump of the code generator. -/
def dumpMarks : List String := ["is incompatible with previous declaration", "Compilation("]

/-- The message as it is shown.  A message that holds a dump of the code generator
is withheld. -/
def shownMessage (e : Error) : Option String :=
  if dumpMarks.any fun mark => occursIn mark.toList e.message.toList then none
  else some e.message

end Error

end PullIter
