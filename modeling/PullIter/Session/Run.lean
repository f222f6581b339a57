import PullIter.Session.Basic

/-!
# Running a session

## Main definitions

* `Session.act` — one step: its answer, and the session after it.
* `Session.finishAll` — the end: handles, then combinators, the newest first.
* `Report` — what is seen of the session after a step.
* `Session.run` — all steps and the end.
-/

namespace PullIter

/-- The bytes that a buffer is filled with before raw code stores into it. -/
def blank (size : Nat) : List UInt8 := List.replicate size 0xee

/-- A sink that decodes every value and reports status words in turn, then `Status.ok`. -/
def codeSink (layout : Layout) : Exec.Sink (List Value × List Status) :=
  fun bytes (seen, codes) =>
    match layout.read bytes with
    | .error fault => .error fault
    | .ok none => .ok (Status.error, (seen, codes))
    | .ok (some value) =>
      match codes with
      | [] => .ok (Status.ok, (value :: seen, []))
      | code :: codes => .ok (code, (value :: seen, codes))

namespace Session

/-- A step that makes an object in the store. -/
def make (session : Session) (name : String) (object : UInt64 → Object)
    (made : Except Fault (UInt64 × Store)) : Except Fault (Answer × Session) :=
  made.map fun (address, store) => (.ok, session.keep name (object address) store)

/-- A step that only changes the store. -/
def change (session : Session) (changed : Except Fault Store) : Except Fault (Answer × Session) :=
  changed.map fun store => (.ok, { session with store := store })

/-- The live object that is at an address. -/
def cellAt (session : Session) (address : UInt64) : Except Fault Cell :=
  match session.store.get? address with
  | some cell => .ok cell
  | none => .error (.badPointer address)

/-- Report a step that was called with a buffer. -/
def rawStep (session : Session) (size : Nat) (step : Step) : Answer × Session :=
  (.rawStep step.status (applyWrites (blank size) step.writes), { session with store := step.store })

/-- Report a call by the host. -/
def hosted {α : Type} (session : Session) (call : Hosted α)
    (answer : Except Error α → Session → Answer × Session) : Except Fault (Answer × Session) :=
  call.map fun (result, store) => answer result { session with store := store }

/-- The fields of the state record of a zip from an index on. -/
def sourceFields (session : Session) (state : UInt64) :
    List Nat → Except Fault (List (String × StateField))
  | [] => .ok []
  | index :: rest => do
    let source ← session.store.peek state index
    let fields ← session.sourceFields state rest
    return (Layout.sourceName index, session.nameAt source) :: fields

/-- The fields of the state record that a kind would have at an address; only combinators have
one.  Whatever is there is read as that record. -/
def stateFields (session : Session) (kind : Kind) (state : UInt64) :
    Except Fault (Option (List (String × StateField))) :=
  match kind with
  | .enumerate _ => do
    let count ← session.store.peek state Layout.countIndex
    let source ← session.store.peek state Layout.sourceIndex
    return some [("count", .value (.i64 count.toInt64)), ("source", session.nameAt source)]
  | .zip sources => (session.sourceFields state (List.range sources.length)).map some
  | .generator .. | .external _ => .ok none

/-- The end of a named object. -/
def dropObject (object : Object) (store : Store) : Except Fault Store :=
  match object with
  | .array address => store.dropArray address
  | .arrayIter address => store.arrayRelease address
  | .range address => store.rangeRelease address
  | .generator address | .script address => .ok (store.erase address)
  -- a block is given back by a step of its own
  | .block _ => .ok store
  | .value unit value => unit.hostDrop value store
  | .handle unit handle => handle.drop unit store

/-- The error that a lookup of code answers with, or what is done with the code. -/
def withCode (session : Session) (entry : Entry)
    (act : Compiled → Code → Except Fault (Answer × Session)) : Except Fault (Answer × Session) := do
  let unit ← session.current
  match unit.entryCode entry with
  | .error e => return (.error e, session)
  | .ok code => act unit code

/-- The handle of a name, with the unit whose code drives it. -/
def handle (session : Session) (name : String) : Except Fault (Compiled × Handle) := do
  match ← session.object name with
  | .handle unit handle => return (unit, handle)
  | _ => throw (.malformed name)

/-- Do something with the unit that takes requests. -/
def withCompiler (session : Session) (act : Compiler → Except Fault (Answer × Session)) :
    Except Fault (Answer × Session) :=
  match session.compiler with
  | none => .error (.malformed "no unit")
  | some unit => act unit

/-- A step that builds units.  A failed unit answers every request with its error, and a
unit that is finished takes no more requests. -/
def actUnit (session : Session) : UnitAction → Except Fault (Answer × Session)
  | .start options symbols =>
    .ok (.ok, { session with compiler := some (Compiler.create options symbols) })
  | .startPlain => .ok (.ok, { session with compiler := some (Compiler.ofEnvironment fun _ => none) })
  | .request request => session.withCompiler fun unit =>
    let (result, unit) := unit.request request
    .ok (match result with | .ok () => .ok | .error e => .error e,
      { session with compiler := some unit })
  | .failure => session.withCompiler fun unit =>
    .ok (match unit.failure with | none => .none | some e => .error e, session)
  | .finish => session.withCompiler fun unit =>
    unit.finish.map fun
      | .error e => (.error e, { session with compiler := none })
      | .ok unit => (.listing unit.listing, { session with compiler := none, unit := some unit })

/-- A step on objects. -/
def actObject (session : Session) : ObjectAction → Except Fault (Answer × Session)
  | .array name values => session.make name .array (session.store.newArray values)
  | .arrayInfo object => do
    match ← session.cellAt (← session.address object) with
    | .array elements nextCalls => return (.arrayInfo elements.length nextCalls, session)
    | _ => throw (.malformed object)
  | .arrayIter name object => do
    let address ← session.address object
    session.make name .arrayIter (session.store.arrayGetiter address)
  | .range name start stop => session.make name .range (session.store.newRange start stop)
  | .rangeInfo object => do
    match ← session.object object with
    | .range address =>
      let calls ← session.store.peek address Store.rangeCallsIndex
      return (.rangeInfo calls.toNat, session)
    | _ => throw (.malformed object)
  | .generator name body => do
    session.make name .generator (session.store.newGenerator (← body.generator))
  | .generatorInfo object => do
    match ← session.cellAt (← session.address object) with
    | .generator generator => return (.generatorInfo generator.isFinished, session)
    | _ => throw (.malformed object)
  | .resume object => do
    let address ← session.address object
    let (outcome, store) ← session.store.resumeGenerator address
    return (.resumption outcome, { session with store := store })
  | .next object => do
    match ← session.object object with
    | .arrayIter address => return session.rawStep 8 (← session.store.arrayNext address)
    | .range address => return session.rawStep 8 (← session.store.rangeNext address)
    | .generator address => return session.rawStep 8 (← session.store.generatorNext address)
    | _ => throw (.malformed object)
  | .script name items => session.make name .script (session.store.newScript name items)
  | .alloc name size align tag => do
    let (address, store) ← session.store.allocBlock size align tag
    let (block, words) ← store.blockAt address
    return (.allocated (words.all (· = 0)) (address.toNat % block.align = 0),
      session.keep name (.block address) store)
  | .free none size align tag => session.change (session.store.freeBlock 0 size align tag)
  | .free (some object) size align tag => do
    let address ← session.address object
    let store ← session.store.freeBlock address size align tag
    return (.ok, session.forget object store)
  | .releaseNull => do
    let store ← session.store.arrayRelease 0
    session.change (store.rangeRelease 0)
  | .track kind amount => session.change (.ok (session.store.count kind amount))
  | .snapshot =>
    let total := session.store.counters.total
    .ok (.number total, { session with snapshots := session.snapshots ++ [total] })
  | .delta index =>
    match session.snapshots[index]? with
    | none => .error (.malformed "no such snapshot")
    | some before => .ok (.number (session.store.counters.total - before), session)
  | .drop object => do
    let store ← dropObject (← session.object object) session.store
    return (.ok, session.forget object store)

/-- A step through the wrappers of the host. -/
def actHost (session : Session) : HostAction → Except Fault (Answer × Session)
  | .construct name kind args => do
    let unit ← session.current
    let args ← session.argValues args
    session.hosted (unit.hostConstruct kind args session.store) fun
      | .error e, session => (.error e, session)
      | .ok value, session => (.ok, session.keep name (.value unit value) session.store)
  | .iter name kind object => do
    let unit ← session.current
    let address ← session.address object
    session.hosted (unit.hostIter kind address session.store) fun
      | .error e, session => (.error e, session)
      | .ok handle, session =>
        (.ownership handle.ownership, session.keep name (.handle unit handle) session.store)
  | .step object => do
    let (unit, handle) ← session.handle object
    let (outcome, handle, store) ← handle.step unit session.store
    return (.outcome outcome, session.update object (.handle unit handle) store)
  | .drain object => do
    let (unit, handle) ← session.handle object
    let ((values, exit), handle, store) ← handle.drain unit session.store
    return (.drained values exit, session.update object (.handle unit handle) store)
  | .forEach kind object trap => do
    let unit ← session.current
    let address ← session.address object
    session.hosted (unit.hostForEach kind address trap (Exec.zeroSlot kind) session.store) fun
      | .error e, session => (.looped [] (.error e), session)
      | .ok (seen, ending), session => (.looped seen (.ok ending), session)

/-- A step that looks at entry points or calls them directly. -/
def actRaw (session : Session) : RawAction → Except Fault (Answer × Session)
  | .entry entry => session.withCode entry fun _ code => .ok (.code code, session)
  | .yieldLayout kind => .ok (.layout (Entry.yieldLayout kind), session)
  | .getiter kind object name => session.withCode ⟨.getiter, kind⟩ fun unit code => do
    let address ← session.address object
    let (iterator, store) ← unit.getiter code address session.store
    let answer := Answer.sameAddress (iterator = address)
    match name with
    | some name => return (answer, session.keep name (.arrayIter iterator) store)
    | none => return (answer, { session with store := store })
  | .next kind object => session.withCode ⟨.iternext, kind⟩ fun unit code => do
    let address ← session.address object
    return session.rawStep (Entry.yieldLayout kind).size (← unit.next code address session.store)
  | .forEach kind object codes => session.withCode ⟨.forEach, kind⟩ fun unit code => do
    let address ← session.address object
    let (status, (seen, _), store) ←
      unit.forEach code (codeSink (Entry.yieldLayout kind)) (Exec.zeroSlot kind) address ([], codes)
        session.store
    return (.rawLoop status seen.reverse, { session with store := store })
  | .state kind object => do
    match ← session.stateFields kind (← session.address object) with
    | some fields => return (.state fields, session)
    | none => return (.none, session)

/-- One step: its answer, and the session after it. -/
def act (session : Session) : Action → Except Fault (Answer × Session)
  | .unit action => session.actUnit action
  | .object action => session.actObject action
  | .host action => session.actHost action
  | .raw action => session.actRaw action

/-- End objects in order. -/
def dropAll (store : Store) : List Object → Except Fault Store
  | [] => .ok store
  | object :: rest =>
    match dropObject object store with
    | .error fault => .error fault
    | .ok store => dropAll store rest

/-- The end of a session: the handles are dropped, then the combinators, the newest first. -/
def finishAll (session : Session) : Except Fault Store :=
  -- other objects are left as they are
  let objects := (session.objects.map Prod.snd).reverse
  dropAll session.store (objects.filter Object.isHandle ++ objects.filter Object.isValue)

end Session

/-- What is seen of a store after a step: the counts of live allocations, their total, the
number of script copies that have not ended, and what was logged. -/
structure Report where
  live : List Int
  copies : Int
  events : List String
  deriving Repr

namespace Report

/-- The report on a store whose log was empty before. -/
def of (store : Store) : Report :=
  ⟨AllocKind.all.map store.counters.count ++ [store.counters.total], store.copies,
    store.events.map Event.line⟩

end Report

namespace Session

/-- Forget what was logged. -/
def clearLog (session : Session) : Session :=
  { session with store := { session.store with events := [] } }

/-- Run the steps in order, each with an empty log, and end the session. -/
def runFrom (session : Session) : List Action → Except Fault (List (Answer × Report) × Report)
  | [] => session.clearLog.finishAll.map fun store => ([], Report.of store)
  | action :: rest =>
    match session.clearLog.act action with
    | .error fault => .error fault
    | .ok (answer, session) =>
      (session.runFrom rest).map fun (answers, last) =>
        ((answer, Report.of session.store) :: answers, last)

/-- Run a session from its start. -/
def run (actions : List Action) : Except Fault (List (Answer × Report) × Report) :=
  start.runFrom actions

end Session

end PullIter
