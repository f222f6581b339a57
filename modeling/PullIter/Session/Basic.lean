import PullIter.Host

/-!
# Sessions

A session builds units, makes objects and calls compiled code on them, step by step.
Objects are known by names that the steps give them.  Several objects may have one name; the
oldest of them is meant, and it is the one that a step changes or ends.

## Main definitions

* `Action` — one step, on units, objects, wrappers of the host or entry points.
* `Answer` — what a step answers.
* `Object` — what a name stands for.
* `Session` — the units, the objects and the store between two steps.
-/

namespace PullIter

/-- An argument of a constructor: a value, or the address of a named object. -/
inductive ArgSource
  | value (arg : Arg)
  | object (name : String)
  deriving DecidableEq, Repr

/-- How a generator of a session is made. -/
inductive GeneratorBody
  /-- Yield some values, then return, possibly with a failure word. -/
  | given (values : List Int64) (failure : Option Int32)
  /-- Yield some values, then fail with a word that has to tell a failure. -/
  | failing (values : List Int64) (code : Int32)
  /-- Yield the first Fibonacci numbers. -/
  | fibonacci (count : Nat)
  deriving DecidableEq, Repr

/-- The generator that a step asks for. -/
def GeneratorBody.generator : GeneratorBody → Except Fault Generator
  | given values failure => .ok (.start (.given values) failure)
  | failing values code => Generator.failing (.given values) code
  | fibonacci count => .ok (.start (.fibonacci count 0 1) none)

/-- A step that builds units. -/
inductive UnitAction
  /-- Start a unit. -/
  | start (options : Options) (symbols : List (String × Provider))
  /-- Start a unit with the options of an empty environment and the built-in symbols only. -/
  | startPlain
  /-- A request to the unit. -/
  | request (request : Request)
  /-- The error that the unit has failed with. -/
  | failure
  /-- Finish the unit and use it from now on. -/
  | finish
  deriving Repr

/-- A step on objects, by their own routines. -/
inductive ObjectAction
  | array (name : String) (values : List Int64)
  | arrayInfo (object : String)
  | arrayIter (name object : String)
  | range (name : String) (start stop : Int64)
  | rangeInfo (object : String)
  | generator (name : String) (body : GeneratorBody)
  | generatorInfo (object : String)
  | resume (object : String)
  /-- Advance an object by its own routine. -/
  | next (object : String)
  | script (name : String) (items : List (Status × List UInt8))
  | alloc (name : String) (size align : Int) (tag : Int32)
  /-- Give a block back; without an object the pointer is null. -/
  | free (object : Option String) (size align : Int) (tag : Int32)
  /-- Release null by both release routines. -/
  | releaseNull
  | track (kind : AllocKind) (amount : Int)
  /-- Remember the number of live allocations. -/
  | snapshot
  /-- The difference to a remembered number. -/
  | delta (index : Nat)
  | drop (object : String)
  deriving Repr

/-- A step through the wrappers of the host. -/
inductive HostAction
  | construct (name : String) (kind : Kind) (args : List ArgSource)
  | iter (name : String) (kind : Kind) (object : String)
  | step (object : String)
  | drain (object : String)
  /-- Run a loop with a sink that panics on a value with a given number. -/
  | forEach (kind : Kind) (object : String) (trap : Option (Nat × String))
  deriving Repr

/-- A step that looks at entry points or calls them directly. -/
inductive RawAction
  | entry (entry : Entry)
  | yieldLayout (kind : Kind)
  /-- Call the entry point that makes iterators; a name keeps what it makes. -/
  | getiter (kind : Kind) (object : String) (name : Option String)
  /-- Call the entry point that advances iterators. -/
  | next (kind : Kind) (object : String)
  /-- Call the loop with a sink that reports some status words in turn. -/
  | forEach (kind : Kind) (object : String) (codes : List Status)
  /-- The state record of a combinator. -/
  | state (kind : Kind) (object : String)
  deriving Repr

/-- One step of a session. -/
inductive Action
  | unit (action : UnitAction)
  | object (action : ObjectAction)
  | host (action : HostAction)
  | raw (action : RawAction)
  deriving Repr

/-- A field of a state record as it is shown. -/
inductive StateField
  | value (value : Value)
  /-- The address of a named object. -/
  | object (name : String)
  /-- The address of something that has no name. -/
  | unnamed
  deriving DecidableEq

/-- What a step answers. -/
inductive Answer
  | ok
  | none
  | error (e : Error)
  | listing (names : List String)
  | arrayInfo (length nextCalls : Nat)
  | rangeInfo (nextCalls : Nat)
  | generatorInfo (finished : Bool)
  | resumption (outcome : Resumption)
  | rawStep (status : Status) (out : List UInt8)
  | allocated (zeroed aligned : Bool)
  | number (n : Int)
  | ownership (ownership : Ownership)
  | outcome (outcome : Outcome)
  | drained (values : List Value) (exit : LoopExit)
  | looped (seen : List Value) (ending : Except Error LoopEnd)
  | code (code : Code)
  | layout (layout : Layout)
  | sameAddress (same : Bool)
  | rawLoop (status : Status) (seen : List Value)
  | state (fields : List (String × StateField))

/-- What a name stands for. -/
inductive Object
  | array (address : UInt64)
  | arrayIter (address : UInt64)
  | range (address : UInt64)
  | generator (address : UInt64)
  | script (address : UInt64)
  | block (address : UInt64)
  /-- A combinator, and the unit whose code it was made by. -/
  | value (unit : Compiled) (value : Constructed)
  /-- An iterator that the host holds, and the unit whose code drives it. -/
  | handle (unit : Compiled) (handle : Handle)

namespace Object

/-- The address that is passed where the object is named. -/
def address : Object → UInt64
  | array a | arrayIter a | range a | generator a | script a | block a => a
  | value _ v => v.address
  | handle _ h => h.iterator

/-- The object is an iterator that the host holds. -/
def isHandle : Object → Bool
  | handle .. => true
  | _ => false

/-- The object is a combinator. -/
def isValue : Object → Bool
  | value .. => true
  | _ => false

end Object

/-- A session between two steps. -/
structure Session where
  /-- The unit that takes requests. -/
  compiler : Option Compiler
  /-- The finished unit in use. -/
  unit : Option Compiled
  /-- The named objects, the oldest first. -/
  objects : List (String × Object)
  /-- The remembered numbers of live allocations. -/
  snapshots : List Int
  store : Store

namespace Session

/-- The session before its first step. -/
def start : Session := ⟨none, none, [], [], .empty⟩

/-- The oldest object of a name. -/
def object (session : Session) (name : String) : Except Fault Object :=
  match session.objects.lookup name with
  | some object => .ok object
  | none => .error (.malformed name)

/-- The address of the object of a name. -/
def address (session : Session) (name : String) : Except Fault UInt64 :=
  (session.object name).map Object.address

/-- The finished unit in use. -/
def current (session : Session) : Except Fault Compiled :=
  match session.unit with
  | some unit => .ok unit
  | none => .error (.malformed "no finished unit")

/-- Name a new object. -/
def keep (session : Session) (name : String) (object : Object) (store : Store) : Session :=
  { session with objects := session.objects ++ [(name, object)], store := store }

/-- Forget the object of a name. -/
def forget (session : Session) (name : String) (store : Store) : Session :=
  { session with objects := Keyed.remove name session.objects, store := store }

/-- Replace the object of a name. -/
def update (session : Session) (name : String) (object : Object) (store : Store) : Session :=
  { session with objects := Keyed.replace name object session.objects, store := store }

/-- The name of the oldest object at an address; iterators that the host holds do not
count. -/
def nameAt (session : Session) (address : UInt64) : StateField :=
  -- the list is in order of making, so the first hit is the oldest
  match session.objects.find? fun entry => !entry.2.isHandle && entry.2.address = address with
  | some (name, _) => .object name
  | none => .unnamed

/-- The value of a constructor argument. -/
def argValue (session : Session) : ArgSource → Except Fault Arg
  | .value arg => .ok arg
  | .object name => (session.address name).map Arg.ptr

/-- The values of constructor arguments. -/
def argValues (session : Session) : List ArgSource → Except Fault (List Arg)
  | [] => .ok []
  | source :: rest =>
    match session.argValue source with
    | .error fault => .error fault
    | .ok arg => (session.argValues rest).map (arg :: ·)

end Session

end PullIter
