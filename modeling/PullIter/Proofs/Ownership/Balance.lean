import Mathlib.Algebra.BigOperators.Group.List.Basic
import Mathlib.Algebra.Ring.Int.Defs
import PullIter.Proofs.Ownership.Solvency

/-!
# Every account is balanced

Whatever a host does, and in whatever order, every iterator that is taken for one of its objects is
given back once, when the object ends, and every state is given back as it was got.  So the counts
of live states and of live iterators over arrays are those of the objects that have not ended.  And
what has not ended can be: dropping it finds all that it has to give back.

## Main definitions

* `Account.Kept` — what a later use of an object relies on.
* `Books` — what every ledger keeps.

## Main results

* `Books.run` — one more run of an object.
* `Books.settles`, `.droppable`, `.endsLoops` — what dropping an object does, and that neither it nor
  the end of a loop fails.
* `Ledger.books` — every ledger keeps its books.
* `Ledger.balanced` — **every account is balanced.**
-/

namespace PullIter

variable {unit : Compiled} {options : Options} {externals : List (String × Provider)}
  {requests : List Request} {origin store after : Store} {accounts : List Account}

/-- What can be called is linked. -/
theorem Compiled.Finished.links (h : unit.Finished options externals requests) {entry : Entry}
    {code : Code} (hc : unit.entryCode entry = .ok code) : unit.Links entry.kind :=
  fun _ hs => (h.linked hc hs).2

/-- What a later use of an object relies on: dropping a combinator releases it, a handle drives the
iterator of its kind, and the symbols of both are linked. -/
def Account.Kept (unit : Compiled) (made : List Combinator) (store : Store) : Account → Prop
  | .value kind _ owned _ _ none => owned.Holds unit kind ∧ unit.Releasable kind
  | .handle kind _ held _ _ none =>
    held.Drives unit kind ∧ unit.Links kind ∧ Points made store kind held.iterator
  | .value _ _ _ _ _ (some _) | .handle _ _ _ _ _ (some _) | .loop .. => True

theorem Account.Kept.run {account : Account} {made made' : List Combinator}
    (h : account.Kept unit made store)
    (hpoints : ∀ {kind word}, Points made store kind word → Points made' after kind word) :
    account.Kept unit made' after := by
  cases account with
  | value kind args value iterators opened closed => cases closed <;> exact h
  | handle kind address handle opened used closed =>
    cases closed with
    | none => exact ⟨h.1, h.2.1, hpoints h.2.2⟩
    | some calls => trivial
  | loop => trivial

/-- What every ledger keeps. -/
structure Books (unit : Compiled) (origin : Store) (accounts : List Account) (store : Store) :
    Prop where
  typed : Typed (combinators accounts) store
  kept : ∀ account ∈ accounts, account.Kept unit (combinators accounts) store
  balanced : ∀ account ∈ accounts, account.Balanced unit
  calls : store.calls.Perm (accounts.flatMap Account.calls ++ origin.calls)
  states : store.counters.combinatorState =
    origin.counters.combinatorState + (combinators accounts).length
  arrays : (∀ account ∈ accounts, unit.ServesArrays account.kind) →
    store.counters.arrayIter = origin.counters.arrayIter + (accounts.map Account.arrays).sum
  solvent : (∀ account ∈ accounts, unit.Orderly account.kind) → Solvent unit accounts store

namespace Books

theorem start (h : origin.WellFormed) : Books unit origin [] origin :=
  ⟨.nil h, fun _ hm => absurd hm List.not_mem_nil, fun _ hm => absurd hm List.not_mem_nil,
    .refl _, (Int.add_zero _).symm, fun _ => (Int.add_zero _).symm, fun _ => .nil unit origin⟩

theorem perm {accounts' : List Account} (h : Books unit origin accounts store)
    (hp : accounts.Perm accounts') : Books unit origin accounts' store where
  typed := h.typed.perm (hp.filterMap _)
  kept account hm := (h.kept account (hp.mem_iff.mpr hm)).run fun hpoints =>
    hpoints.perm (hp.filterMap _)
  balanced account hm := h.balanced account (hp.mem_iff.mpr hm)
  calls := h.calls.trans ((hp.flatMap_right _).append_right _)
  states := by
    have hlen : (combinators accounts).length = (combinators accounts').length :=
      (hp.filterMap _).length_eq
    rw [h.states, hlen]
  arrays serves := by
    rw [h.arrays fun account hm => serves account (hp.mem_iff.mp hm),
      (hp.map Account.arrays).sum_eq]
  solvent orderly := (h.solvent fun account hm => orderly account (hp.mem_iff.mp hm)).perm hp

/-- **One more run of an object**, which may have run before, moves its account. -/
theorem run {old : List Account} {new : Account} {calls : List Call} {states arrays : Int}
    (h : Books unit origin (old ++ accounts) store)
    (hran : Ran (combinators (old ++ accounts)) (combinators (new :: accounts))
      (unit.ServesArrays new.kind) calls states arrays store after)
    (hkind : ∀ account ∈ old, account.kind = new.kind)
    (hkept : new.Kept unit (combinators (new :: accounts)) after)
    (hbalanced : new.Balanced unit) (hcalls : new.calls = old.flatMap Account.calls ++ calls)
    (hstates : ((combinators (new :: accounts)).length : Int) =
      (combinators (old ++ accounts)).length + states)
    (harrays : new.arrays = (old.map Account.arrays).sum + arrays)
    (hsolvent : unit.Orderly new.kind → Solvent unit (old ++ accounts) store →
      Solvent unit (new :: accounts) after) :
    Books unit origin (new :: accounts) after where
  typed := hran.typed
  kept := by
    intro account hm
    rcases List.mem_cons.mp hm with rfl | hm
    · exact hkept
    · exact (h.kept account (List.mem_append_right _ hm)).run hran.points
  balanced := by
    intro account hm
    rcases List.mem_cons.mp hm with rfl | hm
    · exact hbalanced
    · exact h.balanced account (List.mem_append_right _ hm)
  calls := by
    -- the new calls are noted in front, and the account lists them behind those of earlier runs
    have hbefore : (calls.reverse ++ store.calls).Perm
        (calls ++ (old.flatMap Account.calls ++ (accounts.flatMap Account.calls ++ origin.calls))) := by
      have hold := h.calls
      rw [List.flatMap_append, List.append_assoc] at hold
      exact (List.reverse_perm calls).append hold
    have hmove := hbefore.trans (List.perm_append_comm_assoc calls (old.flatMap Account.calls) _)
    rw [hran.effect.calls, List.flatMap_cons, hcalls, List.append_assoc, List.append_assoc]
    exact hmove
  states := by
    rw [hran.effect.states, h.states, hstates]
    omega
  arrays := by
    intro serves
    -- the earlier runs are of the same kind, so they serve arrays as well
    have hold : ∀ account ∈ old ++ accounts, unit.ServesArrays account.kind := by
      intro account hm
      rcases List.mem_append.mp hm with hm | hm
      · rw [hkind account hm]
        exact serves new (List.mem_cons_self ..)
      · exact serves account (List.mem_cons_of_mem _ hm)
    rw [hran.effect.arrays (serves new (List.mem_cons_self ..)), h.arrays hold, List.map_append,
      List.sum_append, List.map_cons, List.sum_cons, harrays]
    omega
  solvent := by
    intro orderly
    refine hsolvent (orderly new (List.mem_cons_self ..)) (h.solvent fun account hm => ?_)
    rcases List.mem_append.mp hm with hm | hm
    · rw [hkind account hm]
      exact orderly new (List.mem_cons_self ..)
    · exact orderly account (List.mem_cons_of_mem _ hm)

/-- The first run of an object opens its account. -/
theorem opens {new : Account} {calls : List Call} {states arrays : Int}
    (h : Books unit origin accounts store)
    (hran : Ran (combinators accounts) (combinators (new :: accounts)) (unit.ServesArrays new.kind)
      calls states arrays store after)
    (hkept : new.Kept unit (combinators (new :: accounts)) after) (hbalanced : new.Balanced unit)
    (hcalls : new.calls = calls)
    (hstates : ((combinators (new :: accounts)).length : Int) = (combinators accounts).length + states)
    (harrays : new.arrays = arrays)
    (hsolvent : unit.Orderly new.kind → Solvent unit accounts store →
      Solvent unit (new :: accounts) after) : Books unit origin (new :: accounts) after :=
  @run _ _ _ _ _ [] _ _ _ _ h hran (fun _ hm => absurd hm List.not_mem_nil) hkept hbalanced hcalls
    hstates (by rw [harrays]; exact (Int.zero_add _).symm) hsolvent

/-- A later run of an object moves its account. -/
theorem moves {old new : Account} {calls : List Call} {states arrays : Int}
    (h : Books unit origin (old :: accounts) store)
    (hran : Ran (combinators (old :: accounts)) (combinators (new :: accounts))
      (unit.ServesArrays new.kind) calls states arrays store after)
    (hkind : old.kind = new.kind) (hkept : new.Kept unit (combinators (new :: accounts)) after)
    (hbalanced : new.Balanced unit) (hcalls : new.calls = old.calls ++ calls)
    (hstates : ((combinators (new :: accounts)).length : Int) =
      (combinators (old :: accounts)).length + states)
    (harrays : new.arrays = old.arrays + arrays)
    (hsolvent : unit.Orderly new.kind → Solvent unit (old :: accounts) store →
      Solvent unit (new :: accounts) after) : Books unit origin (new :: accounts) after := by
  refine @run _ _ _ _ _ [old] _ _ _ _ h hran (fun account hm => ?_) hkept hbalanced ?_ hstates ?_
    hsolvent
  · rw [List.mem_singleton.mp hm]
    exact hkind
  · rw [hcalls, List.flatMap_singleton]
  · rw [harrays, List.map_singleton, List.sum_singleton]

/-- What an account owes is the state of no combinator. -/
theorem spared_of_owed (hb : Books unit origin accounts store) {account : Account}
    (hm : account ∈ accounts) {entry : Provider × UInt64} (he : entry ∈ account.owed unit) :
    Spared (combinators accounts) entry.2 := by
  have hpoints : ∃ kind iterator, entry ∈ unit.owed kind iterator ∧
      Points (combinators accounts) store kind iterator := by
    have hkept := hb.kept account hm
    cases account with
    | value kind args value iterators opened closed =>
      cases closed with
      | none =>
        obtain ⟨i, source, iterator, hs, hi, he⟩ := Compiled.exists_of_mem_owedAll he
        exact ⟨source, iterator, he, hb.typed.points ⟨kind, value.address, iterators⟩
          (List.mem_filterMap.mpr ⟨_, hm, rfl⟩) i source iterator hs hi⟩
      | some calls => cases he
    | handle kind address held opened used closed =>
      cases closed with
      | none => exact ⟨kind, held.iterator, he, hkept.2.2⟩
      | some calls => cases he
    | loop => cases he
  obtain ⟨kind, iterator, he, hp⟩ := hpoints
  rw [Compiled.snd_of_mem_owed he]
  exact (hp.of_leaf (Compiled.isCombinator_of_mem_owed he)).1

/-! ### What the host does -/

/-- Making a combinator opens its account. -/
theorem construct (h : unit.Finished options externals requests) (hygienic : unit.Hygienic)
    (hr : unit.RunsRuntime) (hb : Books unit origin accounts store) {kind : Kind} {args : List Arg}
    {value : Constructed}
    (live : ∀ (i : Nat) (source : Kind) (operand : UInt64), kind.sources[i]? = some source →
      (Arg.pointers args)[i]? = some operand → Live accounts store source operand)
    (answer : unit.hostConstruct kind args store = .ok (.ok value, after)) :
    Books unit origin (.value kind args value (after.heldIterators kind value.address)
      (store.callsSince after) none :: accounts) after := by
  obtain ⟨code, hc⟩ := Compiled.exists_code_of_hostConstruct answer
  have hl := Compiled.callsLinked_of_hygienic h hygienic hc
  obtain ⟨-, hholds, layout, record, hlayout, hpack, hx⟩ := Compiled.hostConstruct_eq_ok h hl answer
  obtain ⟨hlen, hload⟩ := Exec.loadArg_pointers (h.arguments hc) hlayout
  rw [Arg.eq_record_of_pack hpack] at hx
  obtain ⟨hcombinator, hblock⟩ := Exec.exists_block_of_construct hr hx
  have hlinks : unit.Links kind := h.links hc
  obtain ⟨iterators, hran⟩ := Exec.construct_effect hr hb.typed hlayout hlen
    (fun i source operand hs ho => ⟨hload i operand ho, (live i source operand hs ho).points hb.typed⟩)
    hx
  have hm : (⟨kind, value.address, iterators⟩ : Combinator) ∈
      ⟨kind, value.address, iterators⟩ :: combinators accounts := List.mem_cons_self ..
  have hfull := hran.typed.full _ hm
  rw [(hran.typed.found _ hm).heldIterators hfull, Store.callsSince_eq hran.effect.calls]
  refine hb.opens hran ⟨hholds, hcombinator, hlinks, hblock⟩
    ⟨hfull, rfl, fun calls hc => by cases hc⟩ (List.append_nil _) (Int.natCast_succ _) rfl
    fun horderly hs => hs.opens hb.typed.wellFormed hran.effect.custody (fun call hm => ?_)
      (.opening horderly hlinks hlen)
  exact horderly.ended?_of_mem_opening hm

/-- Dropping a combinator closes its account. -/
theorem dropValue (hr : unit.RunsRuntime) {kind : Kind} {args : List Arg} {value : Constructed}
    {iterators : List UInt64} {opened : List Call}
    (hb : Books unit origin (.value kind args value iterators opened none :: accounts) store)
    (answer : unit.hostDrop value store = .ok after) :
    Books unit origin (.value kind args value iterators opened (some (store.callsSince after)) ::
      accounts) after := by
  have hm : Account.value kind args value iterators opened none ∈
      Account.value kind args value iterators opened none :: accounts := List.mem_cons_self ..
  obtain ⟨hholds, -⟩ : value.Holds unit kind ∧ unit.Releasable kind := hb.kept _ hm
  rw [hholds] at answer
  have hran := Exec.release_effect hr hb.typed answer
  obtain ⟨hlen, hopened, -⟩ := hb.balanced _ hm
  rw [Store.callsSince_eq hran.effect.calls]
  refine hb.moves hran rfl trivial ⟨hlen, hopened, fun calls hc => (Option.some.inj hc).symm⟩ ?_ ?_ ?_
    fun _ hs => hs.closes hb.typed.wellFormed hran.effect.custody (fun call hcall a heq => ?_) rfl
  · simp only [Account.calls, Option.getD_none, Option.getD_some, List.append_nil]
  · show ((combinators accounts).length : Int) = ((combinators accounts).length + 1 : Nat) + -1
    omega
  · show (0 : Int) = Kind.arrayCounts kind.sources + -Kind.arrayCounts kind.sources
    omega
  · -- what is ended was owed, or it is the state
    rw [Compiled.closing, Compiled.givenAll_eq_map] at hcall
    rcases List.mem_append.mp hcall with hcall | hcall
    · obtain ⟨entry, he, rfl⟩ := List.mem_map.mp hcall
      exact .inl ⟨entry, he, Option.some.inj heq⟩
    · obtain rfl := List.mem_singleton.mp hcall
      obtain rfl := Option.some.inj heq
      refine .inr fun account ha entry he heq => ?_
      exact hb.spared_of_owed (List.mem_cons_of_mem _ ha) he _ (List.mem_cons_self ..) heq.symm

/-- Making a handle opens its account. -/
theorem iter (h : unit.Finished options externals requests) (hygienic : unit.Hygienic)
    (hr : unit.RunsRuntime) (hb : Books unit origin accounts store) {kind : Kind} {address : UInt64}
    {handle : Handle} (live : Live accounts store kind address)
    (answer : unit.hostIter kind address store = .ok (.ok handle, after)) :
    Books unit origin (.handle kind address handle (store.callsSince after) [] none :: accounts)
      after := by
  obtain ⟨code, hc⟩ := Compiled.exists_code_of_hostIter answer
  have hl := Compiled.callsLinked_of_hygienic h hygienic hc
  have hlinks : unit.Links kind := h.links hc
  obtain ⟨made, hmade, heq⟩ := Compiled.hostIter_eq h hl hc
  rw [heq] at answer
  cases hg : Exec.getiter unit.provided kind address store with
  | error fault => rw [hg] at answer; cases answer
  | ok result =>
    obtain ⟨iterator, mid⟩ := result
    rw [hg] at answer
    cases answer
    obtain ⟨hiterator, hdrives⟩ := hmade iterator
    have hp := live.points hb.typed
    have hgot := Exec.getiter_effect hr hb.typed hp hg
    have hran := hgot.ran hb.typed hp
    -- the handle holds the iterator that was obtained
    have hpoints : Points (combinators accounts) after kind (made iterator).iterator := by
      rw [hiterator]
      exact hgot.points
    have htaken : unit.taken kind address iterator = unit.taken kind address (made iterator).iterator := by
      rw [hiterator]
    rw [Store.callsSince_eq hran.effect.calls]
    refine hb.opens hran ⟨hdrives, hlinks, hpoints⟩ ⟨htaken, fun call hm => absurd hm List.not_mem_nil,
      fun calls hc => by cases hc⟩ ?_ (Int.add_zero _).symm rfl
      fun horderly hs => hs.opens hb.typed.wellFormed hran.effect.custody (fun call hm => ?_) ?_
    · simp only [Account.calls, Option.getD_none, List.append_nil]
    · exact horderly.ended?_of_mem_taken hm
    · rw [htaken]
      exact .owed horderly hlinks address (made iterator).iterator

/-- Advancing a handle adds to its account. -/
theorem advance (hb : Books unit origin accounts store) {kind : Kind} {address : UInt64}
    {handle next : Handle} {opened used : List Call} {rest : List Account}
    (heq : accounts = .handle kind address handle opened used none :: rest)
    (hdrives : next.Drives unit kind) (hiterator : next.iterator = handle.iterator)
    (hadvanced : Exec.Advanced unit (combinators accounts) kind.leafKinds store after) :
    Books unit origin (.handle kind address next opened (used ++ store.callsSince after) none :: rest)
      after := by
  subst heq
  have hm : Account.handle kind address handle opened used none ∈
      Account.handle kind address handle opened used none :: rest := List.mem_cons_self ..
  obtain ⟨hopened, hused, -⟩ := hb.balanced _ hm
  obtain ⟨-, hlinks, hpoints⟩ : handle.Drives unit kind ∧ unit.Links kind ∧
    Points _ store kind handle.iterator := hb.kept _ hm
  obtain ⟨calls, hnext, hspares, hran⟩ := hadvanced
  rw [Store.callsSince_eq hran.effect.calls]
  refine hb.moves hran rfl ⟨hdrives, hlinks, ?_⟩ ⟨?_, fun call hc => ?_, fun calls hc => by cases hc⟩
    ?_ (Int.add_zero _).symm (Int.add_zero _).symm fun horderly hs =>
      hs.moves hb.typed.wellFormed hran.effect.custody (hspares horderly)
        (congrArg (unit.owed kind) hiterator)
  · rw [hiterator]
    exact hran.points hpoints
  · rw [hiterator]
    exact hopened
  · rcases List.mem_append.mp hc with hc | hc
    · exact hused call hc
    · exact hnext call hc
  · simp only [Account.calls, Option.getD_none, List.append_nil, List.append_assoc]

/-- Dropping a handle closes its account. -/
theorem dropHandle (hr : unit.RunsRuntime) {kind : Kind} {address : UInt64} {handle : Handle}
    {opened used : List Call}
    (hb : Books unit origin (.handle kind address handle opened used none :: accounts) store)
    (answer : handle.drop unit store = .ok after) :
    Books unit origin
      (.handle kind address handle opened used (some (store.callsSince after)) :: accounts) after := by
  have hm : Account.handle kind address handle opened used none ∈
      Account.handle kind address handle opened used none :: accounts := List.mem_cons_self ..
  obtain ⟨hdrives, -, hpoints⟩ : handle.Drives unit kind ∧ unit.Links kind ∧
    Points _ store kind handle.iterator := hb.kept _ hm
  obtain ⟨hopened, hused, -⟩ := hb.balanced _ hm
  rw [hdrives.drop] at answer
  have hran := Exec.ran_releaseMade hr hb.typed hpoints answer
  rw [Store.callsSince_eq hran.effect.calls]
  refine hb.moves hran rfl trivial ⟨hopened, hused, fun calls hc => (Option.some.inj hc).symm⟩ ?_
    (Int.add_zero _).symm ?_ fun _ hs =>
      hs.closes hb.typed.wellFormed hran.effect.custody (fun call hcall a heq => ?_) rfl
  · simp only [Account.calls, Option.getD_none, Option.getD_some, List.append_nil]
  · show (0 : Int) = kind.arrayCount + -kind.arrayCount
    omega
  · rw [Compiled.given_eq_map] at hcall
    obtain ⟨entry, he, rfl⟩ := List.mem_map.mp hcall
    exact .inl ⟨entry, he, Option.some.inj heq⟩

/-- Running a loop opens and closes its account. -/
theorem forEach (h : unit.Finished options externals requests) (hygienic : unit.Hygienic)
    (hr : unit.RunsRuntime) (hb : Books unit origin accounts store) {kind : Kind} {address : UInt64}
    {trap : Option (Nat × String)} {slot : List UInt8} {result : List Value × LoopEnd}
    (live : Live accounts store kind address)
    (answer : unit.hostForEach kind address trap slot store = .ok (.ok result, after)) :
    Books unit origin (.loop kind address (store.callsSince after) :: accounts) after := by
  obtain ⟨code, hc⟩ := Compiled.exists_code_of_hostForEach answer
  have hl := Compiled.callsLinked_of_hygienic h hygienic hc
  have hlinks : unit.Links kind := h.links hc
  rw [Compiled.hostForEach_eq h hl hc] at answer
  cases hx : Exec.forEach unit.provided kind (Recorder.sink (Entry.yieldLayout kind)) slot address
      (Recorder.start trap) store with
  | error fault => rw [hx] at answer; cases answer
  | ok ended =>
    obtain ⟨status, recorder, last⟩ := ended
    rw [hx] at answer
    cases answer
    obtain ⟨iterator, used, hnext, hspares, hran⟩ :=
      Exec.forEach_effect hr hb.typed (live.points hb.typed) hx
    rw [Store.callsSince_eq hran.effect.calls]
    refine hb.opens hran trivial ⟨iterator, used, hnext, rfl⟩ rfl (Int.add_zero _).symm rfl
      fun horderly hs => hs.passes hb.typed.wellFormed hran.effect.custody
        (fun call hcall a heq => ?_) rfl
    -- only what the loop has made is ended
    rcases List.mem_append.mp hcall with hcall | hcall
    · have hnone : call.ended? = none := by
        rcases List.mem_append.mp hcall with hcall | hcall
        · exact horderly.ended?_of_mem_taken hcall
        · exact hspares horderly call hcall
      rw [hnone] at heq
      cases heq
    · rw [Compiled.given_eq_map] at hcall
      obtain ⟨entry, he, rfl⟩ := List.mem_map.mp hcall
      obtain rfl := Option.some.inj heq
      have hbacked := Compiled.Backed.owed horderly hlinks address iterator
      obtain ⟨made, hm, script, hmade, -⟩ := hbacked.made entry he
      exact (hran.effect.custody.fresh
        (List.mem_append_left _ (List.mem_append_left _ hm)) hmade).1

/-- What is refused changes nothing. -/
theorem refused {kind : Kind} {args : List Arg} {address : UInt64} {trap : Option (Nat × String)}
    {slot : List UInt8} {e : Error}
    (answer : unit.hostConstruct kind args store = .ok (.error e, after) ∨
      unit.hostIter kind address store = .ok (.error e, after) ∨
      unit.hostForEach kind address trap slot store = .ok (.error e, after)) : after = store := by
  have hmap : ∀ {α β : Type} {run : Except Fault α} {f : α → Except Error β × Store},
      (∀ a e', (f a).1 ≠ .error e') → run.map f ≠ .ok (.error e, after) := by
    intro α β run f hok heq
    cases run with
    | error fault => cases heq
    | ok a =>
      have hpair : f a = (.error e, after) := Except.ok.inj heq
      exact hok a e (by rw [hpair])
  -- a call that has run answers with no error, so a wrapper that refuses has not run any code
  rcases answer with answer | answer | answer
  · unfold Compiled.hostConstruct at answer
    simp only at answer
    split at answer
    · cases answer; rfl
    · split at answer
      · cases answer
      · cases answer; rfl
      · split at answer
        · cases answer; rfl
        · cases answer; rfl
        · exact absurd answer (hmap fun a e' heq => by cases heq)
  · unfold Compiled.hostIter at answer
    simp only at answer
    split at answer
    · cases answer; rfl
    · cases answer; rfl
    · split at answer
      · cases answer; rfl
      · exact absurd answer (hmap fun a e' heq => by cases heq)
  · unfold Compiled.hostForEach at answer
    split at answer
    · cases answer; rfl
    · exact absurd answer (hmap fun a e' heq => by cases heq)

/-- Others leave the accounts alone. -/
theorem elsewhere (hb : Books unit origin accounts store) {own : UInt64 → Prop}
    (frame : Store.Frame own store after)
    (spared : ∀ a, own a → Spared (combinators accounts) a)
    (foreign : ∀ a, own a → ∀ account ∈ accounts, ∀ entry ∈ account.owed unit, entry.2 ≠ a)
    (calls : after.calls = store.calls)
    (states : after.counters.combinatorState = store.counters.combinatorState)
    (arrays : after.counters.arrayIter = store.counters.arrayIter) :
    Books unit origin accounts after where
  typed := hb.typed.frame frame spared
  kept account hm := (hb.kept account hm).run fun hp => hp.frame frame
  balanced := hb.balanced
  calls := by
    rw [calls]
    exact hb.calls
  states := by rw [states, hb.states]
  arrays serves := by rw [arrays, hb.arrays serves]
  solvent orderly := (hb.solvent orderly).elsewhere frame foreign

end Books

/-- **Every ledger keeps its books.** -/
theorem Ledger.books (h : unit.Finished options externals requests) (hygienic : unit.Hygienic)
    (hr : unit.RunsRuntime) (ledger : Ledger unit origin accounts store) :
    Books unit origin accounts store := by
  induction ledger with
  | start wellFormed => exact .start wellFormed
  | construct _ live answer ih => exact ih.construct h hygienic hr live answer
  | iter _ live answer ih => exact ih.iter h hygienic hr live answer
  | step _ answer ih =>
    obtain ⟨hdrives, -, hpoints⟩ := ih.kept _ (List.mem_cons_self ..)
    obtain ⟨hnext, hiterator⟩ := hdrives.of_step answer
    exact ih.advance rfl hnext hiterator (hdrives.step_effect hr ih.typed hpoints answer)
  | drain _ answer ih =>
    obtain ⟨hdrives, -, hpoints⟩ := ih.kept _ (List.mem_cons_self ..)
    obtain ⟨hnext, hiterator⟩ := hdrives.of_drainWithin _ answer
    exact ih.advance rfl hnext hiterator
      (Handle.Drives.drainWithin_effect hr _ hdrives ih.typed hpoints answer)
  | forEach _ live answer ih => exact ih.forEach h hygienic hr live answer
  | dropHandle _ answer ih => exact ih.dropHandle hr answer
  | dropValue _ answer ih => exact ih.dropValue hr answer
  | refused _ answer ih =>
    rw [Books.refused answer]
    exact ih
  | elsewhere _ frame spared foreign calls states arrays ih =>
    exact ih.elsewhere frame spared foreign calls states arrays
  | perm _ perm ih => exact ih.perm perm

namespace Books

/-- Dropping an object settles its account. -/
theorem settles (hr : unit.RunsRuntime) (hb : Books unit origin accounts store) :
    ∀ account ∈ accounts, account.Settles unit store := by
  intro account hm
  have hkept := hb.kept account hm
  cases account with
  | value kind args value iterators opened closed =>
    cases closed with
    | none =>
      obtain ⟨hholds, hreleasable⟩ := hkept
      have hfound : (⟨kind, value.address, iterators⟩ : Combinator) ∈ combinators accounts :=
        List.mem_filterMap.mpr ⟨_, hm, rfl⟩
      exact (hholds store).trans (Exec.release_eq_map hr hb.typed hfound hreleasable)
    | some calls => trivial
  | handle kind address held opened used closed =>
    cases closed with
    | none =>
      obtain ⟨hdrives, hlinks, -⟩ := hkept
      exact (hdrives.drop store).trans (Exec.releaseMade_eq_releaseAll hlinks held.iterator store)
    | some calls => trivial
  | loop => trivial

/-- Whatever is owed can be paid, so every object can be dropped. -/
theorem droppable (hr : unit.RunsRuntime) (hb : Books unit origin accounts store)
    (orderly : ∀ account ∈ accounts, unit.Orderly account.kind) :
    ∀ account ∈ accounts, account.Droppable unit store := by
  intro account hm
  obtain ⟨after, hafter⟩ := (hb.solvent orderly).exists_releaseAll hm
  have hsettles := hb.settles hr account hm
  cases account with
  | value kind args value iterators opened closed =>
    cases closed with
    | none =>
      refine ⟨Compiled.freeState kind value.address after, hsettles.trans ?_⟩
      rw [show Provider.releaseAll (unit.owedAll kind.sources iterators) store = .ok after from hafter]
      rfl
    | some calls => trivial
  | handle kind address held opened used closed =>
    cases closed with
    | none => exact ⟨after, hsettles.trans hafter⟩
    | some calls => trivial
  | loop => trivial

/-- Loops over orderly values do not fail when they end. -/
theorem endsLoops (h : unit.Finished options externals requests) (hygienic : unit.Hygienic)
    (hr : unit.RunsRuntime) (hb : Books unit origin accounts store) {kind : Kind} {address : UInt64}
    (live : Live accounts store kind address) (orderly : unit.Orderly kind) :
    unit.EndsLoops kind address store := by
  intro trap slot iterator status recorder mid last havailable hget hrounds
  obtain ⟨code, hc⟩ := Compiled.exists_code havailable
  have hl := Compiled.callsLinked_of_hygienic h hygienic hc
  obtain ⟨after, hafter⟩ := Exec.exists_forEach hr orderly (h.links hc) hb.typed
    (live.points hb.typed) hget hrounds
  refine ⟨after, ?_⟩
  rw [Compiled.hostForEach_eq h hl hc, hafter]
  rfl

end Books

/-- **Every account is balanced.**  On a finished unit in which no lowered body and no registered
symbol takes the place of another one, whatever was taken for an object is given back when it ends,
once, and nothing else is called.  So there is a live state for each combinator that has not been
dropped, and if the routines of arrays serve arrays only, there is a live iterator over an array for
each array among the sources of these and for each handle of an array that has not been dropped.

What has not been dropped can be: dropping it runs the routines that its iterators are owed to, and
these find every iterator as long as the kinds in use are orderly.  Nor does a loop over an orderly
value fail to give its iterator back. -/
theorem Ledger.balanced (h : unit.Finished options externals requests) (hygienic : unit.Hygienic)
    (runtime : ∀ external ∈ externals, ∀ routine : Intrinsic, external.1 ≠ routine.name)
    (ledger : Ledger unit origin accounts store) :
    (∀ account ∈ accounts, account.Balanced unit) ∧
      store.calls.Perm (accounts.flatMap Account.calls ++ origin.calls) ∧
      store.counters.combinatorState =
        origin.counters.combinatorState + (combinators accounts).length ∧
      ((∀ account ∈ accounts, unit.ServesArrays account.kind) →
        store.counters.arrayIter =
          origin.counters.arrayIter + (accounts.map Account.arrays).sum) ∧
      (∀ account ∈ accounts, account.Settles unit store) ∧
      ((∀ account ∈ accounts, unit.Orderly account.kind) →
        ∀ account ∈ accounts, account.Droppable unit store) ∧
      ∀ kind address, Live accounts store kind address → unit.Orderly kind →
        unit.EndsLoops kind address store := by
  have hr := Compiled.runsRuntime_of_finished h runtime
  have hb := ledger.books h hygienic hr
  exact ⟨hb.balanced, hb.calls, hb.states, hb.arrays, hb.settles hr, hb.droppable hr,
    fun _ _ live orderly => hb.endsLoops h hygienic hr live orderly⟩

/-- An array and a counted range in lockstep. -/
def lockstep : Kind := .zip [.array, .enumerate .range]

/-- What is asked for to build it, to step an array and to run a loop over one. -/
def lockstepRequests : List Request :=
  [.constructor (.enumerate .range) [.ptr], .constructor lockstep [.ptr, .ptr], .iterator .array,
    .loop .array]

/-- The unit that answers. -/
def lockstepUnit : Compiled :=
  match ((Compiler.create .debug []).requestAll lockstepRequests).finish with
  | .ok (.ok unit) => unit
  | _ => ⟨(Compiler.create .debug []).decls, (Compiler.create .debug []).registry⟩

/-- A store with a range and an array. -/
def lockstepStore : Store :=
  { Store.empty with
    cells := [(0x7f00000000, .block ⟨24, 8⟩ [0, 5, 0]), (0x7f00000020, .array [7, 8, 9] 0)]
    unused := 0x7f00000040 }

theorem wellFormed_lockstepStore : lockstepStore.WellFormed := by
  have hall : ∀ entry ∈ lockstepStore.cells, Store.firstAddress ≤ entry.1.toNat ∧
      entry.1.toNat < lockstepStore.unused := by decide
  refine ⟨by decide, fun {address cell} h => ?_⟩
  obtain ⟨front, behind, hcells, -⟩ := List.lookup_eq_some_iff.mp h
  refine hall (address, cell) ?_
  rw [hcells]
  exact List.mem_append_right _ (List.mem_cons_self ..)

/-- A range is counted and zipped with an array; a handle of the array is stepped and kept; the
source is dropped before the zip; and the sink of a loop over the array panics.  Both combinators
have been dropped then. -/
theorem ledger_lockstep : ∃ looped zipped ofZip openedZip closedZip counted ofCounted openedCounted
    closedCounted held openedHeld usedHeld accounts store,
    Ledger lockstepUnit lockstepStore accounts store ∧
      accounts = [.loop .array 0x7f00000020 looped,
        .value lockstep [.ptr 0x7f00000020, .ptr 0x7f00000040] zipped ofZip openedZip
          (some closedZip),
        .value (.enumerate .range) [.ptr 0x7f00000000] counted ofCounted openedCounted
          (some closedCounted),
        .handle .array 0x7f00000020 held openedHeld usedHeld none] ∧
      usedHeld.length = 1 ∧ looped.length = 4 ∧ (store.get? 0x7f00000020).isSome := by
  have start := @Ledger.start lockstepUnit lockstepStore wellFormed_lockstepStore
  have counted := @Ledger.construct _ _ _ _ _ (.enumerate .range) [.ptr 0x7f00000000] _ start
    (by
      intro i source operand hs ho
      match i with
      | 0 =>
        cases hs
        cases ho
        exact ⟨rfl, fun value hm => by cases hm⟩) rfl
  have zipped := @Ledger.construct _ _ _ _ _ lockstep [.ptr 0x7f00000020, .ptr 0x7f00000040] _
    counted
    (by
      intro i source operand hs ho
      match i with
      | 0 =>
        cases hs
        cases ho
        refine ⟨rfl, fun value hm => ?_⟩
        cases List.mem_singleton.mp hm
        decide +kernel
      | 1 =>
        cases hs
        cases ho
        exact ⟨_, List.mem_singleton_self _, rfl, rfl⟩) rfl
  have held := @Ledger.iter _ _ _ _ _ .array 0x7f00000020 _ zipped
    ⟨rfl, fun value hm => by
      rcases List.mem_cons.mp hm with rfl | hm
      · decide +kernel
      · cases List.mem_singleton.mp hm
        decide +kernel⟩ rfl
  have stepped := @Ledger.step _ _ _ _ _ _ _ _ _ _ _ _ held rfl
  have first := stepped.perm (@List.perm_append_comm _ [_, _] [_])
  have sourceDropped := @Ledger.dropValue _ _ _ _ _ _ _ _ _ _ first rfl
  have second := sourceDropped.perm (@List.perm_append_comm _ [_, _] [_])
  have dropped := @Ledger.dropValue _ _ _ _ _ _ _ _ _ _ second rfl
  have looped := @Ledger.forEach _ _ _ _ _ .array 0x7f00000020 (some (2, "stop"))
    (List.replicate 8 255) _ _ dropped ⟨rfl, fun value hm => by cases hm⟩ rfl
  refine ⟨_, _, _, _, _, _, _, _, _, _, _, _, _, _, looped, rfl, rfl, rfl, ?_⟩
  decide +kernel

/-- The accounts of that session.  Only the handle of the array still holds anything, and it can be
dropped; the loop made an iterator, advanced it twice and ended it, and so would another one. -/
theorem Ledger.balanced_lockstep : ∃ looped zipped ofZip openedZip closedZip counted ofCounted
    openedCounted closedCounted held openedHeld usedHeld accounts store,
    lockstepUnit.Finished .debug [] lockstepRequests ∧ lockstepUnit.Hygienic ∧
      Ledger lockstepUnit lockstepStore accounts store ∧
      accounts = [.loop .array 0x7f00000020 looped,
        .value lockstep [.ptr 0x7f00000020, .ptr 0x7f00000040] zipped ofZip openedZip
          (some closedZip),
        .value (.enumerate .range) [.ptr 0x7f00000000] counted ofCounted openedCounted
          (some closedCounted),
        .handle .array 0x7f00000020 held openedHeld usedHeld none] ∧
      closedZip = lockstepUnit.closing lockstep ofZip zipped.address ∧
      closedCounted = lockstepUnit.closing (.enumerate .range) ofCounted counted.address ∧
      openedHeld = lockstepUnit.taken .array 0x7f00000020 held.iterator ∧
      usedHeld.length = 1 ∧ looped.length = 4 ∧
      store.calls.Perm (accounts.flatMap Account.calls ++ lockstepStore.calls) ∧
      store.counters.combinatorState = 0 ∧ store.counters.arrayIter = 1 ∧
      (∃ after, held.drop lockstepUnit store = .ok after) ∧
      lockstepUnit.EndsLoops .array 0x7f00000020 store := by
  obtain ⟨looped, zipped, ofZip, openedZip, closedZip, counted, ofCounted, openedCounted,
    closedCounted, held, openedHeld, usedHeld, accounts, store, ledger, heq, hused, hlooped,
    hsome⟩ := ledger_lockstep
  have hygienic : lockstepUnit.Hygienic := by
    unfold Compiled.Hygienic
    decide +kernel
  have runtime : ∀ external ∈ ([] : List (String × Provider)), ∀ routine : Intrinsic,
      external.1 ≠ routine.name := fun _ hm => absurd hm List.not_mem_nil
  have hr := Compiled.runsRuntime_of_finished
    (show lockstepUnit.Finished .debug [] lockstepRequests from rfl) runtime
  -- all leaves are arrays and ranges, which the runtime serves
  have hbuiltIn : ∀ account ∈ accounts, ∀ leaf ∈ account.kind.leafKinds, Exec.BuiltIn leaf := by
    have hkinds : accounts.map Account.kind = [.array, lockstep, .enumerate .range, .array] := by
      rw [heq]
      rfl
    have hleaves : ∀ kind ∈ [Kind.array, lockstep, .enumerate .range, .array],
        ∀ leaf ∈ kind.leafKinds, leaf = .array ∨ leaf = .range := by decide
    intro account hm leaf hleaf
    have hkind : account.kind ∈ [.array, lockstep, .enumerate .range, .array] := by
      rw [← hkinds]
      exact List.mem_map_of_mem hm
    rcases hleaves _ hkind leaf hleaf with harray | hrange
    · exact .inl harray
    · exact .inr (.inl hrange)
  have horderly : ∀ account ∈ accounts, lockstepUnit.Orderly account.kind := fun account hm =>
    Compiled.orderly_of_builtIn hr (hbuiltIn account hm)
  obtain ⟨hbalanced, hcalls, hstates, harrays, -, hdroppable, hloops⟩ :=
    @Ledger.balanced lockstepUnit .debug [] lockstepRequests lockstepStore store accounts rfl hygienic
      runtime ledger
  have hcount := harrays fun account hm => Exec.servesArrays_of_builtIn hr (hbuiltIn account hm)
  have hdrops := hdroppable horderly
  subst heq
  simp only [List.forall_mem_cons] at hbalanced hdrops
  obtain ⟨-, ⟨-, -, hzip⟩, ⟨-, -, hcounted⟩, ⟨hheld, -⟩, -⟩ := hbalanced
  obtain ⟨-, -, -, hdrop, -⟩ := hdrops
  exact ⟨looped, zipped, ofZip, openedZip, closedZip, counted, ofCounted, openedCounted,
    closedCounted, held, openedHeld, usedHeld, _, store, rfl, hygienic, ledger, rfl, hzip _ rfl,
    hcounted _ rfl, hheld, hused, hlooped, hcalls, hstates, hcount, hdrop,
    hloops .array _ ⟨hsome, fun value hm => by cases hm⟩ (horderly _ (List.mem_cons_self ..))⟩

end PullIter
