import PullIter.Proofs.Host.Resumption
import PullIter.Proofs.Ownership.Balance
import PullIter.Proofs.Shared.Life
import PullIter.Proofs.Shared.Trace

/-!
# What the host does with shared objects

The host obtains a handle on a value, advances and drops it, and runs loops over values.  All of this
runs the built-in routines, if no symbol of them is overridden, and the calls that are made for it
can be listed.

## Main definitions

* `Compiled.Genuine` — a unit in which no built-in symbol is overridden.
* `Deed`, `Deed.run` — what the host does with a value or with a handle.
* `Deed.asked` — the calls that are made for it.

## Main results

* `Deed.done_of_run` — **whatever the host does** is recorded.
-/

namespace PullIter

open Linkage (runtime)

/-! ### Built-in leaves -/

namespace Exec

mutual

/-- The leaves of a kind that has a role are built in. -/
theorem builtIn_of_role? : ∀ {kind : Kind} {role : Role}, kind.role? = some role →
    ∀ leaf ∈ kind.leafKinds, BuiltIn leaf ∨ leaf = .arrayIterator
  | .enumerate source, role, h, leaf, hm => by
    cases Kind.roleCases h with
    | enumerate hsource => exact builtIn_of_role? hsource leaf hm
  | .zip sources, role, h, leaf, hm => by
    cases Kind.roleCases h with
    | zip hsources => exact builtIn_of_roles? hsources leaf hm
  | .generator name yields resume, role, h, leaf, hm => by
    cases Kind.roleCases h with
    | coroutine =>
      rw [List.mem_singleton.mp hm]
      exact .inl (.inr (.inr ⟨name, rfl⟩))
  | .external ext, role, h, leaf, hm => by
    rw [List.mem_singleton.mp hm]
    cases Kind.roleCases h with
    | array => exact .inl (.inl rfl)
    | iterator => exact .inr rfl
    | range => exact .inl (.inr (.inl rfl))

theorem builtIn_of_roles? : ∀ {kinds : List Kind} {roles : List Role},
    Kind.roles? kinds = some roles → ∀ leaf ∈ Kind.leafKindsList kinds,
      BuiltIn leaf ∨ leaf = .arrayIterator
  | [], _, _, _, hm => by cases hm
  | kind :: kinds, [], h, _, _ => by cases Kind.roles?_eq_nil h
  | kind :: kinds, role :: roles, h, leaf, hm => by
    obtain ⟨_, _, heq, hrole, hroles⟩ := Kind.roles?_eq_cons h
    cases heq
    rw [Kind.leafKindsList, List.mem_append] at hm
    rcases hm with hm | hm
    · exact builtIn_of_role? hrole leaf hm
    · exact builtIn_of_roles? hroles leaf hm

end

/-- **The leaves of shared objects** store whole values. -/
theorem coversAhead_of_role? {unit : Compiled} (h : unit.RunsRuntime) {kind : Kind} {role : Role}
    (hk : kind.role? = some role) (iterator : UInt64) (store : Store) :
    CoversAhead unit.provided kind iterator store := by
  rintro outcomes at_ - ⟨leaf, address, before⟩ hc
  rcases builtIn_of_role? hk leaf (kind_mem_leafKinds _ kind iterator at_ _ hc) with hb | rfl
  · exact covers_of_builtIn h hb
  · -- an iterator over an array is advanced like the array
    intro step hs hok
    have hnext : next unit.provided .array address before = .ok step := by
      rw [← next_iteratorKind unit.provided rfl]
      exact hs
    have harray : (⟨.array, address, before⟩ : LeafCall).Covers unit.provided :=
      covers_of_builtIn h (.inl rfl)
    exact harray step hnext hok

theorem Shows.congr {link link' : Linkage} {kind : Kind} (h : link.AgreesOn kind.symbols link')
    {iterator : UInt64} {store last : Store} {outcomes : List Outcome}
    (hs : Shows link kind iterator store outcomes last) :
    Shows link' kind iterator store outcomes last := by
  induction hs with
  | done => exact .done _
  | step head _ ih =>
    refine .step ?_ ih
    rw [shown, ← next_congr kind h]
    exact head

end Exec

/-! ### Deeds -/

/-- A unit in which no built-in symbol is overridden. -/
def Compiled.Genuine (unit : Compiled) : Prop :=
  ∃ options externals requests, unit.Finished options externals requests ∧
    ∀ external ∈ externals, ∀ routine : Intrinsic, external.1 ≠ routine.name

theorem Compiled.Genuine.runsRuntime {unit : Compiled} (h : unit.Genuine) : unit.RunsRuntime := by
  obtain ⟨options, externals, requests, hfinished, hext⟩ := h
  exact runsRuntime_of_finished hfinished hext

/-- What the host does with a value or with a handle. -/
inductive Deed
  /-- Obtain a handle. -/
  | iter (unit : Compiled) (kind : Kind) (value : UInt64)
  /-- Advance a handle by one step. -/
  | step (unit : Compiled) (kind : Kind) (handle : Handle)
  /-- Advance a handle until there is no value any more. -/
  | drain (unit : Compiled) (kind : Kind) (handle : Handle)
  /-- Drop a handle. -/
  | drop (unit : Compiled) (kind : Kind) (handle : Handle)
  /-- Run a loop with a sink that may panic, over a slot that holds anything. -/
  | forEach (unit : Compiled) (kind : Kind) (value : UInt64) (trap : Option (Nat × String))
      (slot : List UInt8)

namespace Deed

/-- The unit whose code is called. -/
def unit : Deed → Compiled
  | iter unit .. | step unit .. | drain unit .. | drop unit .. | forEach unit .. => unit

/-- The kind of the value, or of the value that the handle is on. -/
def kind : Deed → Kind
  | iter _ kind _ | step _ kind _ | drain _ kind _ | drop _ kind _ | forEach _ kind .. => kind

/-- What the host is answered. -/
inductive Answer
  | made (handle : Except Error Handle)
  | stepped (outcome : Outcome) (handle : Handle)
  | drained (values : List Value) (ending : LoopExit) (handle : Handle)
  | dropped
  | looped (result : Except Error (List Value × LoopEnd))

namespace Answer

/-- The handle that the host has afterwards. -/
def handle? : Answer → Option Handle
  | made (.ok handle) | stepped _ handle | drained _ _ handle => some handle
  | made (.error _) | dropped | looped _ => none

/-- The outcomes that the answer shows. -/
def outcomes : Answer → List Outcome
  | stepped outcome _ => [outcome]
  | drained values ending _ => values.map Outcome.valid ++ [ending.outcome]
  | looped (.ok (values, ending)) => values.map Outcome.valid ++ ending.outcomes
  | made _ | dropped | looped (.error _) => []

end Answer

/-- Do it. -/
def run : Deed → Store → Except Fault (Answer × Store)
  | iter unit kind value, store =>
    (unit.hostIter kind value store).map fun (made, store) => (.made made, store)
  | step unit _ handle, store =>
    (handle.step unit store).map fun (outcome, handle, store) => (.stepped outcome handle, store)
  | drain unit _ handle, store =>
    (handle.drain unit store).map fun ((values, ending), handle, store) =>
      (.drained values ending handle, store)
  | drop unit _ handle, store => (handle.drop unit store).map fun store => (.dropped, store)
  | forEach unit kind value trap slot, store =>
    (unit.hostForEach kind value trap slot store).map fun (result, store) =>
      (.looped result, store)

/-- The calls that are made for it: as many steps as the answer shows outcomes. -/
def asked (deed : Deed) (answer : Answer) (store : Store) : List Asked :=
  match deed with
  | step _ kind handle | drain _ kind handle =>
    Exec.stretch runtime kind handle.iterator answer.outcomes.length store
  | forEach _ kind value .. =>
    match Exec.getiter runtime kind value store with
    | .error _ => []
    | .ok (iterator, store) => Exec.stretch runtime kind iterator answer.outcomes.length store
  | iter .. | drop .. => []

/-- It is done with a value or with a handle of its kind, and no built-in symbol is overridden. -/
def Typed (cast : Cast) (deed : Deed) : Prop :=
  deed.unit.Genuine ∧ ∃ role, deed.kind.role? = some role ∧
    match deed with
    | iter _ kind value => cast.Offers kind value
    | step _ _ handle | drain _ _ handle | drop _ _ handle =>
      handle.Drives deed.unit deed.kind ∧ (handle.iterator, role) ∈ cast
    | forEach _ kind value _ slot => cast.Offers kind value ∧ slot.length = Exec.slotSize kind

end Deed

/-! ### What a deed does -/

namespace Deed

variable {unit : Compiled} {kind : Kind} {role : Role} {cast : Cast} {store last : Store}
  {log : Cast → Store → List Asked → Prop} {calls : List Asked} {answer : Answer}

/-- What is left of a deed: objects were made, the calls are recorded, and the host has a handle that
it may use. -/
structure Done (log : Cast → Store → List Asked → Prop) (cast : Cast) (store : Store)
    (calls : List Asked) (deed : Deed) (answer : Answer) (after : Store) (more : Cast) : Prop where
  subset : cast ⊆ more
  staged : Staged more after
  recorded : log more after (calls ++ deed.asked answer store)
  handle : ∀ handle, answer.handle? = some handle → handle.Drives deed.unit deed.kind ∧
    ∃ role, deed.kind.role? = some role ∧ (handle.iterator, role) ∈ more

/-- The calls of a stretch of steps are recorded. -/
theorem recorded_shows (hlog : Recorded log) (h : unit.Genuine) (hs : Staged cast store)
    (hc : log cast store calls) (hk : kind.role? = some role) {iterator : UInt64}
    (hm : (iterator, role) ∈ cast) {outcomes : List Outcome}
    (hshows : Exec.Shows unit.provided kind iterator store outcomes last) :
    Staged cast last ∧
      log cast last (calls ++ Exec.stretch runtime kind iterator outcomes.length store) :=
  hlog.stretch hk hm (hshows.congr (Compiled.agreesOn_runtime h.runsRuntime hk)) hs hc

/-- What makes no calls. -/
theorem done_of_grows (hlog : Recorded log) {deed : Deed} {more : Cast} (hs : Staged cast store)
    (hc : log cast store calls) (hg : Grows cast store more last)
    (hasked : deed.asked answer store = [])
    (hhandle : ∀ handle, answer.handle? = some handle → handle.Drives deed.unit deed.kind ∧
      ∃ role, deed.kind.role? = some role ∧ (handle.iterator, role) ∈ more) :
    Done log cast store calls deed answer last more := by
  refine ⟨hg.subset, hg.staged, ?_, hhandle⟩
  rw [hasked, List.append_nil]
  exact hlog.grows hs hc hg

theorem done_step (hlog : Recorded log) (h : unit.Genuine) (hs : Staged cast store)
    (hc : log cast store calls) (hk : kind.role? = some role) {handle next : Handle}
    (hd : handle.Drives unit kind) (hm : (handle.iterator, role) ∈ cast) {outcome : Outcome}
    (hrun : handle.step unit store = .ok (outcome, next, last)) :
    Done log cast store calls (.step unit kind handle) (.stepped outcome next) last cast := by
  have hcover := Exec.coversAhead_of_role? h.runsRuntime hk handle.iterator store
  have hshown := (hd.step_eq_ok hcover.now).mp ⟨next, hrun⟩
  obtain ⟨hstaged, hcalls⟩ := recorded_shows hlog h hs hc hk hm (.single hshown)
  obtain ⟨hdrives, hiterator⟩ := hd.of_step hrun
  refine ⟨List.Subset.refl _, hstaged, hcalls, fun found hf => ?_⟩
  cases hf
  exact ⟨hdrives, role, hk, by rw [hiterator]; exact hm⟩

theorem done_drain (hlog : Recorded log) (h : unit.Genuine) (hs : Staged cast store)
    (hc : log cast store calls) (hk : kind.role? = some role) {handle next : Handle}
    (hd : handle.Drives unit kind) (hm : (handle.iterator, role) ∈ cast) {values : List Value}
    {ending : LoopExit} (hrun : handle.drain unit store = .ok ((values, ending), next, last)) :
    Done log cast store calls (.drain unit kind handle) (.drained values ending next) last cast := by
  have hcover := Exec.coversAhead_of_role? h.runsRuntime hk handle.iterator store
  have hobserves := Handle.drainWithin_observes (store.rounds + 1) hd hcover
  rw [show handle.drainWithin unit (store.rounds + 1) store = _ from hrun] at hobserves
  obtain ⟨hstaged, hcalls⟩ := recorded_shows hlog h hs hc hk hm hobserves
  obtain ⟨hdrives, hiterator⟩ := hd.of_drainWithin _ hrun
  refine ⟨List.Subset.refl _, hstaged, hcalls, fun found hf => ?_⟩
  cases hf
  exact ⟨hdrives, role, hk, by rw [hiterator]; exact hm⟩

theorem done_drop (hlog : Recorded log) (h : unit.Genuine) (hs : Staged cast store)
    (hc : log cast store calls) (hk : kind.role? = some role) {handle : Handle}
    (hd : handle.Drives unit kind) (hrun : handle.drop unit store = .ok last) :
    Done log cast store calls (.drop unit kind handle) .dropped last cast := by
  rw [hd.drop, Exec.releaseMade_congr kind (Compiled.agreesOn_runtime h.runsRuntime hk)] at hrun
  exact done_of_grows hlog hs hc ((Grows.refl hs).still_after (Exec.still_releaseMade hk hrun)) rfl
    fun found hf => by cases hf

theorem done_iter (hlog : Recorded log) (h : unit.Genuine) (hs : Staged cast store)
    (hc : log cast store calls) (hk : kind.role? = some role) {value : UInt64}
    (ho : cast.Offers kind value) {made : Except Error Handle}
    (hrun : unit.hostIter kind value store = .ok (made, last)) :
    ∃ more, Done log cast store calls (.iter unit kind value) (.made made) last more := by
  cases made with
  | error e =>
    obtain rfl := @Books.refused unit store last kind [] value none [] e (.inr (.inl hrun))
    exact ⟨cast, done_of_grows hlog hs hc (.refl hs) rfl fun found hf => by cases hf⟩
  | ok handle =>
    have hagree := Compiled.agreesOn_runtime h.runsRuntime hk
    obtain ⟨options, externals, requests, hfinished, -⟩ := h
    obtain ⟨code, hcode⟩ := Compiled.exists_code_of_hostIter hrun
    obtain ⟨fresh, hfresh, heq⟩ :=
      Compiled.hostIter_eq hfinished (Compiled.callsLinked_of_role? hk) hcode
    rw [heq, Exec.getiter_congr kind hagree] at hrun
    cases hg : Exec.getiter runtime kind value store with
    | error fault => rw [hg] at hrun; cases hrun
    | ok result =>
      rw [hg] at hrun
      cases hrun
      obtain ⟨hiterator, hdrives⟩ := hfresh result.1
      obtain ⟨more, hgrows, hm⟩ := Exec.grows_getiter hs hk ho hg
      refine ⟨more, done_of_grows hlog hs hc hgrows rfl fun found hf => ?_⟩
      cases hf
      exact ⟨hdrives, role, hk, by rw [hiterator]; exact hm⟩

theorem done_forEach (hlog : Recorded log) (h : unit.Genuine) (hs : Staged cast store)
    (hc : log cast store calls) (hk : kind.role? = some role) {value : UInt64}
    {trap : Option (Nat × String)} {slot : List UInt8} (ho : cast.Offers kind value)
    (hslot : slot.length = Exec.slotSize kind) {result : Except Error (List Value × LoopEnd)}
    (hrun : unit.hostForEach kind value trap slot store = .ok (result, last)) :
    ∃ more, Done log cast store calls (.forEach unit kind value trap slot) (.looped result) last
      more := by
  cases result with
  | error e =>
    -- a loop that is refused calls nobody
    obtain rfl := @Books.refused unit store last kind [] value trap slot e (.inr (.inr hrun))
    refine ⟨cast, done_of_grows hlog hs hc (.refl hs) ?_ fun found hf => by cases hf⟩
    rw [asked]
    split <;> rfl
  | ok ended =>
    have hagree := Compiled.agreesOn_runtime h.runsRuntime hk
    obtain ⟨code, hcode⟩ := Compiled.exists_code_of_hostForEach hrun
    obtain ⟨options, externals, requests, hfinished, -⟩ := id h
    rw [Compiled.hostForEach_eq hfinished (Compiled.callsLinked_of_role? hk) hcode, Exec.forEach,
      Exec.getiter_congr kind hagree] at hrun
    cases hg : Exec.getiter runtime kind value store with
    | error fault => rw [hg] at hrun; cases hrun
    | ok got =>
      obtain ⟨iterator, mid⟩ := got
      rw [hg] at hrun
      simp only at hrun
      obtain ⟨more, hgrows, hm⟩ := Exec.grows_getiter hs hk ho hg
      cases hr : Exec.rounds unit.provided kind (Recorder.sink (Entry.yieldLayout kind)) iterator
          (mid.rounds + 1) slot (Recorder.start trap) mid with
      | error fault => rw [hr] at hrun; cases hrun
      | ok looped =>
        obtain ⟨status, recorder, done⟩ := looped
        have hsize : (Entry.yieldLayout kind).size ≤ slot.length := by
          rw [hslot, Exec.slotSize]
          exact Nat.le_max_right ..
        have hcover := Exec.coversAhead_of_role? h.runsRuntime hk iterator mid
        have hserves := Exec.rounds_observes (mid.rounds + 1) hsize hcover
          (rfl : (Recorder.start trap).panicked = none)
        rw [hr] at hserves hrun
        obtain ⟨values, hfollows⟩ := hserves
        simp only [Exec.releaseMade_congr kind hagree] at hrun
        cases hrel : Exec.releaseMade runtime kind iterator done with
        | error fault => rw [hrel] at hrun; cases hrun
        | ok released =>
          rw [hrel] at hrun
          cases hrun
          -- the rounds show what a stretch of steps shows, so they are recorded as such
          obtain ⟨hstaged, hcalls⟩ :=
            recorded_shows hlog h hgrows.staged (hlog.grows hs hc hgrows) hk hm hfollows.shows
          have hended := (Grows.refl hstaged).still_after (Exec.still_releaseMade hk hrel)
          -- the recorder holds the values in reverse
          have hvalues : recorder.values = values := by
            rw [Recorder.values, hfollows.seen]
            exact (congrArg List.reverse (List.append_nil _)).trans values.reverse_reverse
          refine ⟨more, hgrows.subset, hended.staged, ?_, fun found hf => by cases hf⟩
          rw [asked, hg]
          simp only [Answer.outcomes, hvalues]
          exact hlog.grows hstaged hcalls hended

/-- **Whatever the host does** is recorded. -/
theorem done_of_run (hlog : Recorded log) {deed : Deed} (hs : Staged cast store)
    (hc : log cast store calls) (ht : deed.Typed cast)
    (hrun : deed.run store = .ok (answer, last)) :
    ∃ more, Done log cast store calls deed answer last more := by
  obtain ⟨hgenuine, role, hk, ht⟩ := ht
  cases deed with
  | iter unit kind value =>
    obtain ⟨⟨made, store'⟩, hi, heq⟩ := Except.exists_of_map_eq_ok hrun
    cases heq
    exact done_iter hlog hgenuine hs hc hk ht hi
  | step unit kind handle =>
    obtain ⟨⟨outcome, next, store'⟩, hi, heq⟩ := Except.exists_of_map_eq_ok hrun
    cases heq
    exact ⟨cast, done_step hlog hgenuine hs hc hk ht.1 ht.2 hi⟩
  | drain unit kind handle =>
    obtain ⟨⟨⟨values, ending⟩, next, store'⟩, hi, heq⟩ := Except.exists_of_map_eq_ok hrun
    cases heq
    exact ⟨cast, done_drain hlog hgenuine hs hc hk ht.1 ht.2 hi⟩
  | drop unit kind handle =>
    obtain ⟨store', hi, heq⟩ := Except.exists_of_map_eq_ok hrun
    cases heq
    exact ⟨cast, done_drop hlog hgenuine hs hc hk ht.1 hi⟩
  | forEach unit kind value trap slot =>
    obtain ⟨⟨result, store'⟩, hi, heq⟩ := Except.exists_of_map_eq_ok hrun
    cases heq
    exact done_forEach hlog hgenuine hs hc hk ht.1 ht.2 hi

end Deed

end PullIter
