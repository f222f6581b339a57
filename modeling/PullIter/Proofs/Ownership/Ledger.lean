import PullIter.Proofs.Ownership.Owed

/-!
# The ledger of a host

A host makes combinators, handles and loops in any order, uses them, and drops each of them at most
once.  For each there is an account of the calls that were noted when it was made, while it was
used, and when it was dropped.  Others may use the store at any time.

## Main definitions

* `Account` — an object that the host has made, and what was called for it.
* `Live` — a value that may be used.
* `Ledger` — the accounts of everything that the host has made.
* `Account.Balanced` — whatever was taken when the object was made is given back when it ends, once.
* `Account.Settles`, `Account.Droppable` — what dropping the object does, and that it does not fail.
* `Compiled.EndsLoops` — loops over a value do not fail when they end.
-/

namespace PullIter

namespace Store

/-- The calls that were noted between two stores, the oldest first. -/
def callsSince (before after : Store) : List Call :=
  (after.calls.take (after.calls.length - before.calls.length)).reverse

/-- The iterators in the state of a combinator. -/
def heldIterators (store : Store) (kind : Kind) (state : UInt64) : List UInt64 :=
  (List.range kind.sources.length).map fun i => store.word state (kind.sourceWord i)

end Store

/-! ### Accounts -/

/-- An object that the host has made, and what was called for it. -/
inductive Account
  /-- A combinator with the iterators that its state holds, the calls that made it, and those that
  released it if it was dropped. -/
  | value (kind : Kind) (args : List Arg) (value : Constructed) (iterators : List UInt64)
      (opened : List Call) (closed : Option (List Call))
  /-- A handle of an iterator of a value. -/
  | handle (kind : Kind) (address : UInt64) (handle : Handle) (opened used : List Call)
      (closed : Option (List Call))
  /-- A loop over a value, which begins and ends in one go. -/
  | loop (kind : Kind) (address : UInt64) (calls : List Call)

namespace Account

/-- The kind of the value that the object is about. -/
def kind : Account → Kind
  | value kind .. | handle kind .. | loop kind .. => kind

/-- All calls for the object. -/
def calls : Account → List Call
  | value _ _ _ _ opened closed => opened ++ closed.getD []
  | handle _ _ _ opened used closed => opened ++ used ++ closed.getD []
  | loop _ _ calls => calls

/-- The combinator that the host has made and not dropped. -/
def combinator? : Account → Option Combinator
  | value kind _ made iterators _ none => some ⟨kind, made.address, iterators⟩
  | value _ _ _ _ _ (some _) | handle .. | loop .. => none

/-- The number of iterators over arrays that the object holds. -/
def arrays : Account → Int
  | value kind _ _ _ _ none => Kind.arrayCounts kind.sources
  | handle kind _ _ _ _ none => kind.arrayCount
  | value _ _ _ _ _ (some _) | handle _ _ _ _ _ (some _) | loop .. => 0

/-- **Whatever was taken is given back.**  Making the object called what takes iterators of its
sources, each for a source that is no iterator itself, and gets its state; dropping it called what
gives back each of them in order, and then the state; and in between only leaves were advanced. -/
def Balanced (unit : Compiled) : Account → Prop
  | value kind args made iterators opened closed =>
    iterators.length = kind.sources.length ∧
      opened = unit.opening kind (Arg.pointers args) iterators made.address ∧
      ∀ calls, closed = some calls → calls = unit.closing kind iterators made.address
  | handle kind address held opened used closed =>
    opened = unit.taken kind address held.iterator ∧
      (∀ call ∈ used, call.isNext = true) ∧
      ∀ calls, closed = some calls → calls = unit.given kind held.iterator
  | loop kind address calls =>
    ∃ iterator used, (∀ call ∈ used, call.isNext = true) ∧
      calls = unit.taken kind address iterator ++ used ++ unit.given kind iterator

/-- The iterators that the object has to end when it is dropped, with the routines that end them. -/
def owed (unit : Compiled) : Account → List (Provider × UInt64)
  | value kind _ _ iterators _ none => unit.owedAll kind.sources iterators
  | handle kind _ held _ _ none => unit.owed kind held.iterator
  | value _ _ _ _ _ (some _) | handle _ _ _ _ _ (some _) | loop .. => []

/-- **Dropping the object settles the account.**  It runs the routines that the iterators of the
object are owed to, in order and nothing else, and a combinator then gives its state back; it can
fail only where one of these routines does. -/
def Settles (unit : Compiled) (store : Store) : Account → Prop
  | value kind _ made iterators _ none => unit.hostDrop made store =
    (Provider.releaseAll (unit.owedAll kind.sources iterators) store).map
      (Compiled.freeState kind made.address)
  | handle kind _ held _ _ none => held.drop unit store =
    Provider.releaseAll (unit.owed kind held.iterator) store
  | value _ _ _ _ _ (some _) | handle _ _ _ _ _ (some _) | loop .. => True

/-- The object can be dropped, unless it was. -/
def Droppable (unit : Compiled) (store : Store) : Account → Prop
  | value _ _ made _ _ none => ∃ after, unit.hostDrop made store = .ok after
  | handle _ _ held _ _ none => ∃ after, held.drop unit store = .ok after
  | value _ _ _ _ _ (some _) | handle _ _ _ _ _ (some _) | loop .. => True

end Account

/-- The combinators that live. -/
def combinators (accounts : List Account) : List Combinator := accounts.filterMap Account.combinator?

/-- A value that may be used as one of a kind: a combinator of the kind that the host has made and
not dropped, or an object that is the state of no combinator. -/
def Live (accounts : List Account) (store : Store) (kind : Kind) (address : UInt64) : Prop :=
  if kind.isCombinator then
    ∃ value ∈ combinators accounts, value.kind = kind ∧ value.state = address
  else (store.get? address).isSome ∧ Spared (combinators accounts) address

/-- Loops over a value answer as soon as their rounds have ended, by exhaustion, by a failure or
because the sink panics: giving the iterator back does not fail. -/
def Compiled.EndsLoops (unit : Compiled) (kind : Kind) (address : UInt64) (store : Store) : Prop :=
  ∀ {trap : Option (Nat × String)} {slot : List UInt8} {iterator : UInt64} {status : Status}
    {recorder : Recorder} {mid last : Store}, unit.isAvailable ⟨.forEach, kind⟩ = true →
    Exec.getiter unit.provided kind address store = .ok (iterator, mid) →
    Exec.rounds unit.provided kind (Recorder.sink (Entry.yieldLayout kind)) iterator
      (mid.rounds + 1) slot (Recorder.start trap) mid = .ok (status, recorder, last) →
    ∃ after, unit.hostForEach kind address trap slot store =
      .ok (.ok (recorder.values, recorder.ending status), after)

/-! ### Ledgers -/

/-- Everything that a host has made since a store in which it had made nothing, in any order, with
an account of each.  Objects live when they are used, and each is dropped at most once. -/
inductive Ledger (unit : Compiled) (start : Store) : List Account → Store → Prop
  | start (wellFormed : start.WellFormed) : Ledger unit start [] start
  /-- A combinator is made of sources that live. -/
  | construct {accounts : List Account} {store after : Store} {kind : Kind} {args : List Arg}
      {value : Constructed} (ledger : Ledger unit start accounts store)
      (live : ∀ (i : Nat) (source : Kind) (operand : UInt64), kind.sources[i]? = some source →
        (Arg.pointers args)[i]? = some operand → Live accounts store source operand)
      (answer : unit.hostConstruct kind args store = .ok (.ok value, after)) :
      Ledger unit start (.value kind args value (after.heldIterators kind value.address)
        (store.callsSince after) none :: accounts) after
  | iter {accounts : List Account} {store after : Store} {kind : Kind} {address : UInt64}
      {handle : Handle} (ledger : Ledger unit start accounts store)
      (live : Live accounts store kind address)
      (answer : unit.hostIter kind address store = .ok (.ok handle, after)) :
      Ledger unit start (.handle kind address handle (store.callsSince after) [] none :: accounts)
        after
  | step {accounts : List Account} {store after : Store} {kind : Kind} {address : UInt64}
      {handle next : Handle} {opened used : List Call} {outcome : Outcome}
      (ledger : Ledger unit start (.handle kind address handle opened used none :: accounts) store)
      (answer : handle.step unit store = .ok (outcome, next, after)) :
      Ledger unit start
        (.handle kind address next opened (used ++ store.callsSince after) none :: accounts) after
  | drain {accounts : List Account} {store after : Store} {kind : Kind} {address : UInt64}
      {handle next : Handle} {opened used : List Call} {values : List Value} {ending : LoopExit}
      (ledger : Ledger unit start (.handle kind address handle opened used none :: accounts) store)
      (answer : handle.drain unit store = .ok ((values, ending), next, after)) :
      Ledger unit start
        (.handle kind address next opened (used ++ store.callsSince after) none :: accounts) after
  /-- A loop ends by exhaustion, by a failure, or because its sink panics. -/
  | forEach {accounts : List Account} {store after : Store} {kind : Kind} {address : UInt64}
      {trap : Option (Nat × String)} {slot : List UInt8} {values : List Value} {ending : LoopEnd}
      (ledger : Ledger unit start accounts store) (live : Live accounts store kind address)
      (answer : unit.hostForEach kind address trap slot store = .ok (.ok (values, ending), after)) :
      Ledger unit start (.loop kind address (store.callsSince after) :: accounts) after
  | dropHandle {accounts : List Account} {store after : Store} {kind : Kind} {address : UInt64}
      {handle : Handle} {opened used : List Call}
      (ledger : Ledger unit start (.handle kind address handle opened used none :: accounts) store)
      (answer : handle.drop unit store = .ok after) :
      Ledger unit start
        (.handle kind address handle opened used (some (store.callsSince after)) :: accounts) after
  /-- A combinator is dropped, whether or not its sources live. -/
  | dropValue {accounts : List Account} {store after : Store} {kind : Kind} {args : List Arg}
      {value : Constructed} {iterators : List UInt64} {opened : List Call}
      (ledger : Ledger unit start (.value kind args value iterators opened none :: accounts) store)
      (answer : unit.hostDrop value store = .ok after) :
      Ledger unit start
        (.value kind args value iterators opened (some (store.callsSince after)) :: accounts) after
  /-- A call that is refused makes nothing. -/
  | refused {accounts : List Account} {store after : Store} {kind : Kind} {args : List Arg}
      {address : UInt64} {trap : Option (Nat × String)} {slot : List UInt8} {e : Error}
      (ledger : Ledger unit start accounts store)
      (answer : unit.hostConstruct kind args store = .ok (.error e, after) ∨
        unit.hostIter kind address store = .ok (.error e, after) ∨
        unit.hostForEach kind address trap slot store = .ok (.error e, after)) :
      Ledger unit start accounts after
  /-- Others use the store.  They leave the states alone and the iterators that have to be ended, and
  what they count are neither states nor iterators over arrays. -/
  | elsewhere {accounts : List Account} {store after : Store} {own : UInt64 → Prop}
      (ledger : Ledger unit start accounts store) (frame : Store.Frame own store after)
      (spared : ∀ a, own a → Spared (combinators accounts) a)
      (foreign : ∀ a, own a → ∀ account ∈ accounts, ∀ entry ∈ account.owed unit, entry.2 ≠ a)
      (calls : after.calls = store.calls)
      (states : after.counters.combinatorState = store.counters.combinatorState)
      (arrays : after.counters.arrayIter = store.counters.arrayIter) :
      Ledger unit start accounts after
  /-- The order of the accounts does not matter. -/
  | perm {accounts accounts' : List Account} {store : Store}
      (ledger : Ledger unit start accounts store) (perm : accounts.Perm accounts') :
      Ledger unit start accounts' store

/-! ### What is read off a store -/

variable {unit : Compiled} {accounts : List Account} {store after : Store}

theorem Store.callsSince_eq {calls : List Call} (h : after.calls = calls.reverse ++ store.calls) :
    store.callsSince after = calls := by
  have hlen : after.calls.length - store.calls.length = calls.reverse.length := by
    rw [h, List.length_append]
    omega
  rw [Store.callsSince, hlen, h, List.take_left, List.reverse_reverse]

/-- The iterators of a combinator are those that its state holds. -/
theorem Combinator.Found.heldIterators {value : Combinator} (h : value.Found store)
    (hfull : value.iterators.length = value.kind.sources.length) :
    store.heldIterators value.kind value.state = value.iterators := by
  obtain ⟨block, words, hg, hwords⟩ := h
  refine List.ext_getElem ?_ fun i hi hi' => ?_
  · rw [Store.heldIterators, List.length_map, List.length_range, hfull]
  · have hword := hwords i _ (List.getElem?_eq_getElem hi')
    simp only [Store.heldIterators, List.getElem_map, List.getElem_range]
    rw [Store.word_of_get? hg]
    exact hword

/-- A value that lives is used as one of its kind. -/
theorem Live.points {kind : Kind} {address : UInt64} (h : Live accounts store kind address)
    (ht : Typed (combinators accounts) store) :
    Points (combinators accounts) store kind address := by
  unfold Live at h
  split at h
  · next hk =>
    obtain ⟨value, hm, same, state⟩ := h
    exact .combinator hk hm same state
  · next hk =>
    obtain ⟨hsome, hspared⟩ := h
    obtain ⟨cell, hg⟩ := Option.isSome_iff_exists.mp hsome
    have hbounds := ht.wellFormed.bounds hg
    refine .leaf (by simpa using hk) hspared hbounds.2 fun _ hzero => ?_
    rw [hzero] at hbounds
    exact absurd hbounds.1 (by decide)

end PullIter
