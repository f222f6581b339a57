import PullIter.Proofs.Host.Buffers

/-!
# What the drivers of an iterator observe

An iterator is advanced by steps of a handle, by a drain, or by a compiled loop.  All the state is
in the object: what a step shows depends on the iterator and the store, not on the handle, the loop
or a buffer.  So each driver observes a stretch of the same outcomes, and reads nothing ahead.

## Main definitions

* `Exec.Shows` — the outcomes of a stretch of steps.
* `Exec.Breaks` — a fault that some steps ahead lead to.
* `Handle.steps` — a number of steps of one handle.
* `LoopExit.outcome`, `LoopEnd.outcomes` — what the end of a driver shows.

## Main results

* `Handle.steps_of_shows` — one handle observes any stretch.
* `Handle.drainWithin_observes`, `Exec.rounds_observes` — a drain and a loop observe a stretch.
-/

namespace PullIter

/-! ### Stretches of steps -/

namespace Exec

/-- A stretch of steps from one store to another, with the outcomes that they show. -/
inductive Shows (link : Linkage) (kind : Kind) (iterator : UInt64) :
    Store → List Outcome → Store → Prop
  | done (store : Store) : Shows link kind iterator store [] store
  | step {store middle last : Store} {outcome : Outcome} {outcomes : List Outcome}
      (head : shown link kind iterator store = .ok (outcome, middle))
      (tail : Shows link kind iterator middle outcomes last) :
      Shows link kind iterator store (outcome :: outcomes) last

/-- A fault that steps from a store lead to: one of them faults, or a driver gives up on steps
that have a value each, more of them than there can be. -/
inductive Breaks (link : Linkage) (kind : Kind) (iterator : UInt64) (store : Store) : Fault → Prop
  | step {outcomes : List Outcome} {at_ : Store} {fault : Fault}
      (before : Shows link kind iterator store outcomes at_)
      (fails : shown link kind iterator at_ = .error fault) : Breaks link kind iterator store fault
  | endless {outcomes more : List Outcome} {at_ last : Store}
      (before : Shows link kind iterator store outcomes at_)
      (ahead : Shows link kind iterator at_ more last) (long : at_.rounds < more.length)
      (valid : ∀ outcome ∈ more, outcome.isValid = true) :
      Breaks link kind iterator store .endlessLoop

/-- Every leaf that produces a value in some step ahead stores all of it. -/
def CoversAhead (link : Linkage) (kind : Kind) (iterator : UInt64) (store : Store) : Prop :=
  ∀ outcomes at_, Shows link kind iterator store outcomes at_ →
    ∀ call ∈ leafCalls link kind iterator at_, call.Covers link

variable {link : Linkage} {kind : Kind} {iterator : UInt64} {store middle last : Store}

theorem Shows.single {outcome : Outcome}
    (h : shown link kind iterator store = .ok (outcome, last)) :
    Shows link kind iterator store [outcome] last :=
  .step h (.done last)

theorem Shows.append {outcomes more : List Outcome}
    (h : Shows link kind iterator store outcomes middle)
    (h' : Shows link kind iterator middle more last) :
    Shows link kind iterator store (outcomes ++ more) last := by
  induction h with
  | done => exact h'
  | step head _ ih => exact .step head (ih h')

theorem Breaks.after {outcomes : List Outcome} {fault : Fault}
    (h : Shows link kind iterator store outcomes middle)
    (hb : Breaks link kind iterator middle fault) : Breaks link kind iterator store fault := by
  cases hb with
  | step before fails => exact .step (h.append before) fails
  | endless before ahead long valid => exact .endless (h.append before) ahead long valid

namespace CoversAhead

theorem now (h : CoversAhead link kind iterator store) :
    ∀ call ∈ leafCalls link kind iterator store, call.Covers link := h [] store (.done store)

theorem after {outcomes : List Outcome} (h : CoversAhead link kind iterator store)
    (hs : Shows link kind iterator store outcomes middle) :
    CoversAhead link kind iterator middle :=
  fun more at_ hm => h (outcomes ++ more) at_ (hs.append hm)

end CoversAhead

/-- What a driver with some fuel ends with: a stretch of outcomes, the fault of a step, or the
fault of a driver whose fuel went into steps with a value each. -/
def Observes (link : Linkage) (kind : Kind) (iterator : UInt64) (fuel : Nat) (store : Store) :
    Except Fault (List Outcome × Store) → Prop
  | .ok (outcomes, last) => Shows link kind iterator store outcomes last
  | .error fault =>
    (∃ outcomes at_, Shows link kind iterator store outcomes at_ ∧
      shown link kind iterator at_ = .error fault) ∨
    fault = .endlessLoop ∧ ∃ outcomes at_, Shows link kind iterator store outcomes at_ ∧
      outcomes.length = fuel ∧ ∀ outcome ∈ outcomes, outcome.isValid = true

/-- One more step with a value before a driver goes on. -/
theorem Observes.cons {fuel : Nat} {value : Value} {result : Except Fault (List Outcome × Store)}
    (hs : shown link kind iterator store = .ok (.valid value, middle))
    (h : Observes link kind iterator fuel middle result) :
    Observes link kind iterator (fuel + 1) store
      (result.map fun (outcomes, last) => (.valid value :: outcomes, last)) := by
  cases result with
  | ok result => exact .step hs h
  | error fault =>
    rcases h with ⟨outcomes, at_, hm, hf⟩ | ⟨rfl, outcomes, at_, hm, hlength, hvalid⟩
    · exact .inl ⟨.valid value :: outcomes, at_, .step hs hm, hf⟩
    · refine .inr ⟨rfl, .valid value :: outcomes, at_, .step hs hm, ?_, ?_⟩
      · rw [List.length_cons, hlength]
      · intro outcome ho
        rcases List.mem_cons.mp ho with rfl | ho
        · rfl
        · exact hvalid outcome ho

/-- A driver with more fuel than there are values in the store. -/
theorem Observes.breaks {fault : Fault}
    (h : Observes link kind iterator (store.rounds + 1) store (.error fault)) :
    Breaks link kind iterator store fault := by
  rcases h with ⟨outcomes, at_, hs, hf⟩ | ⟨rfl, outcomes, at_, hs, hlength, hvalid⟩
  · exact .step hs hf
  · exact .endless (.done store) hs (by omega) hvalid

/-- What a step shows, by its status. -/
theorem shown_of_next {step : Step} (h : next link kind iterator store = .ok step) :
    shown link kind iterator store =
      .ok (Outcome.ofStatus step.status fun () => decoded kind step.writes, step.store) := by
  rw [shown, h]
  rfl

end Exec

/-! ### Handles -/

/-- What the end of a drain, or of a loop, shows. -/
def LoopExit.outcome : LoopExit → Outcome
  | .exhausted => .exhausted
  | .failed code => .failure code

namespace Handle

/-- A number of steps of one handle. -/
def steps (unit : Compiled) : Nat → Handle → Store → Except Fault (List Outcome × Handle × Store)
  | 0, handle, store => .ok ([], handle, store)
  | n + 1, handle, store =>
    match handle.step unit store with
    | .error fault => .error fault
    | .ok (outcome, handle, store) =>
      (steps unit n handle store).map fun (outcomes, rest) => (outcome :: outcomes, rest)

variable {unit : Compiled} {kind : Kind} {handle : Handle} {store last : Store}

/-- What a step of a handle shows is what the iterator shows. -/
theorem Drives.shows_eq (hd : handle.Drives unit kind)
    (hcover : ∀ call ∈ Exec.leafCalls unit.provided kind handle.iterator store,
      call.Covers unit.provided) :
    handle.shows unit store = Exec.shown unit.provided kind handle.iterator store := by
  refine Handle.shows_eq hd.next hd.layout ?_ hcover
  have hbuffer := hd.buffer
  rwa [hd.layout] at hbuffer

/-- A handle makes the steps that the iterator shows. -/
theorem Drives.step_eq_ok (hd : handle.Drives unit kind)
    (hcover : ∀ call ∈ Exec.leafCalls unit.provided kind handle.iterator store,
      call.Covers unit.provided) {outcome : Outcome} :
    (∃ after, handle.step unit store = .ok (outcome, after, last)) ↔
      Exec.shown unit.provided kind handle.iterator store = .ok (outcome, last) := by
  rw [← hd.shows_eq hcover, Handle.shows]
  cases handle.step unit store with
  | error fault => simp [Except.map]
  | ok result =>
    obtain ⟨outcome', after, last'⟩ := result
    simp [Except.map]

/-- A handle faults where the iterator does. -/
theorem Drives.step_eq_error (hd : handle.Drives unit kind)
    (hcover : ∀ call ∈ Exec.leafCalls unit.provided kind handle.iterator store,
      call.Covers unit.provided) {fault : Fault} :
    handle.step unit store = .error fault ↔
      Exec.shown unit.provided kind handle.iterator store = .error fault := by
  rw [← hd.shows_eq hcover, Handle.shows]
  cases handle.step unit store with
  | error fault' => simp [Except.map]
  | ok result => simp [Except.map]

/-- **One handle observes any stretch.** -/
theorem steps_of_shows {iterator : UInt64} {outcomes : List Outcome}
    (h : Exec.Shows unit.provided kind iterator store outcomes last) :
    ∀ {handle : Handle}, handle.Drives unit kind → handle.iterator = iterator →
      Exec.CoversAhead unit.provided kind iterator store →
      ∃ after, handle.steps unit outcomes.length store = .ok (outcomes, after, last) ∧
        after.Drives unit kind ∧ after.iterator = iterator := by
  induction h with
  | done => exact fun hd hi _ => ⟨_, rfl, hd, hi⟩
  | step head tail ih =>
    intro handle hd hi hcover
    subst hi
    obtain ⟨middle, hs⟩ := (hd.step_eq_ok hcover.now).mpr head
    -- the handle after a step has another buffer, but drives the same iterator
    obtain ⟨hd', hi'⟩ := hd.of_step hs
    obtain ⟨after, hrest, hafter⟩ := ih hd' hi' (hcover.after (.single head))
    refine ⟨after, ?_, hafter⟩
    rw [List.length_cons, steps, hs]
    simp only [hrest]
    rfl

/-- One handle faults where the iterator does. -/
theorem steps_of_fails {iterator : UInt64} {outcomes : List Outcome} {fault : Fault}
    (h : Exec.Shows unit.provided kind iterator store outcomes last)
    (fails : Exec.shown unit.provided kind iterator last = .error fault) :
    ∀ {handle : Handle}, handle.Drives unit kind → handle.iterator = iterator →
      Exec.CoversAhead unit.provided kind iterator store →
      handle.steps unit (outcomes.length + 1) store = .error fault := by
  induction h with
  | done =>
    intro handle hd hi hcover
    subst hi
    rw [List.length_nil, steps, (hd.step_eq_error hcover.now).mpr fails]
  | step head tail ih =>
    intro handle hd hi hcover
    subst hi
    obtain ⟨middle, hs⟩ := (hd.step_eq_ok hcover.now).mpr head
    obtain ⟨hd', hi'⟩ := hd.of_step hs
    have hrest := ih fails hd' hi' (hcover.after (.single head))
    rw [List.length_cons, steps, hs]
    simp only [hrest]
    rfl

/-- **A drain observes a stretch** that ends with the first step without a value. -/
theorem drainWithin_observes (fuel : Nat) : ∀ {handle : Handle} {store : Store},
    handle.Drives unit kind → Exec.CoversAhead unit.provided kind handle.iterator store →
    Exec.Observes unit.provided kind handle.iterator fuel store
      ((handle.drainWithin unit fuel store).map fun ((values, ending), _, last) =>
        (values.map Outcome.valid ++ [ending.outcome], last)) := by
  induction fuel with
  | zero => exact fun _ _ => .inr ⟨rfl, [], _, .done _, rfl, fun _ h => by cases h⟩
  | succ fuel ih =>
    intro handle store hd hcover
    rw [drainWithin]
    cases hs : handle.step unit store with
    | error fault =>
      exact .inl ⟨[], store, .done store, (hd.step_eq_error hcover.now).mp hs⟩
    | ok result =>
      obtain ⟨outcome, after, last⟩ := result
      have hshown := (hd.step_eq_ok hcover.now).mp ⟨after, hs⟩
      obtain ⟨hd', hi'⟩ := hd.of_step hs
      cases outcome with
      | exhausted => exact .single hshown
      | failure code => exact .single hshown
      | valid value =>
        have hrest := ih hd' (by rw [hi']; exact hcover.after (.single hshown))
        rw [hi'] at hrest
        have hcons := hrest.cons hshown
        simp only
        cases hr : after.drainWithin unit fuel last with
        | error fault => rw [hr] at hcons; exact hcons
        | ok rest => rw [hr] at hcons; exact hcons

end Handle

/-! ### Loops -/

/-- What the end of a loop shows: nothing if the sink panicked, as the value that it panicked on has
been seen. -/
def LoopEnd.outcomes : LoopEnd → List Outcome
  | .exit ending => [ending.outcome]
  | .panicked _ => []

namespace Recorder

/-- The sink records the value that the buffer holds, and ends the loop if it panics. -/
theorem sink_eq_accept {layout : Layout} {buffer : List UInt8} {value : Value}
    (h : layout.read buffer = .ok (some value)) (recorder : Recorder) :
    Recorder.sink layout buffer recorder =
      .ok (if (recorder.accept value).panicked.isSome then Status.error else Status.ok,
        recorder.accept value) := by
  unfold Recorder.sink
  rw [h]

/-- The sink panics on the value with the number of its trap, and on no other. -/
theorem panicked_accept (recorder : Recorder) (value : Value) (text : String) :
    (recorder.accept value).panicked = some text ↔
      recorder.trap = some ((recorder.accept value).seen.length, text) := by
  unfold accept
  cases recorder.trap with
  | none => simp
  | some trap =>
    obtain ⟨number, said⟩ := trap
    by_cases hn : number = (value :: recorder.seen).length <;> simp [Option.filter]

/-- What a loop does to its sink: it hands over the values of a stretch of steps.  The sink panics
on the value with the number of its trap, and then on the last that it is handed. -/
structure Follows (link : Linkage) (kind : Kind) (iterator : UInt64) (before : Recorder)
    (store : Store) (status : Status) (after : Recorder) (last : Store) (values : List Value) :
    Prop where
  seen : after.seen = values.reverse ++ before.seen
  trap : after.trap = before.trap
  shows : Exec.Shows link kind iterator store
    (values.map Outcome.valid ++ (after.ending status).outcomes) last
  panicked : ∀ text, after.panicked = some text ↔
    values ≠ [] ∧ before.trap = some (after.seen.length, text)

end Recorder

namespace Exec

open Recorder

variable {link : Linkage} {kind : Kind} {iterator : UInt64}

/-- A sink that panics ends the loop at once. -/
theorem follows_of_panicked {recorder : Recorder} {store last : Store} {value : Value}
    {text : String} (hs : shown link kind iterator store = .ok (.valid value, last))
    (hp : (recorder.accept value).panicked = some text) :
    Follows link kind iterator recorder store Status.error (recorder.accept value) last [value] where
  seen := rfl
  trap := rfl
  shows := by
    rw [ending, hp]
    exact .single hs
  panicked said := by
    rw [panicked_accept]
    simp

/-- A sink that does not panic lets the loop go on. -/
theorem follows_of_accepted {recorder after : Recorder} {store middle last : Store} {value : Value}
    {values : List Value} {status : Status}
    (hs : shown link kind iterator store = .ok (.valid value, middle))
    (hp : (recorder.accept value).panicked = none)
    (h : Follows link kind iterator (recorder.accept value) middle status after last values) :
    Follows link kind iterator recorder store status after last (value :: values) where
  seen := by
    rw [h.seen, List.reverse_cons, List.append_assoc]
    rfl
  trap := h.trap
  shows := .step hs h.shows
  panicked said := by
    rw [h.panicked said]
    refine ⟨fun ⟨_, ht⟩ => ⟨List.cons_ne_nil _ _, ht⟩, fun ⟨_, ht⟩ => ⟨?_, ht⟩⟩
    -- the trap is not the number of the value before
    rintro rfl
    rw [h.seen] at ht
    have hsaid := (panicked_accept recorder value said).mpr ht
    rw [hp] at hsaid
    cases hsaid

/-- A loop that ends without a value hands nothing over. -/
theorem follows_of_ended {recorder : Recorder} {store last : Store} {status : Status}
    (hp : recorder.panicked = none)
    (hs : shown link kind iterator store = .ok ((LoopExit.ofStatus status).outcome, last)) :
    Follows link kind iterator recorder store status recorder last [] where
  seen := rfl
  trap := rfl
  shows := by
    rw [ending, hp]
    exact .single hs
  panicked text := by simp [hp]

/-- How a loop with some fuel serves its sink, or faults. -/
def Serves (link : Linkage) (kind : Kind) (iterator : UInt64) (fuel : Nat) (before : Recorder)
    (store : Store) : Except Fault (Status × Recorder × Store) → Prop
  | .ok (status, after, last) =>
    ∃ values, Follows link kind iterator before store status after last values
  | .error fault => Observes link kind iterator fuel store (.error fault)

theorem Serves.cons {fuel : Nat} {recorder : Recorder} {store middle : Store} {value : Value}
    {result : Except Fault (Status × Recorder × Store)}
    (hs : shown link kind iterator store = .ok (.valid value, middle))
    (hp : (recorder.accept value).panicked = none)
    (h : Serves link kind iterator fuel (recorder.accept value) middle result) :
    Serves link kind iterator (fuel + 1) recorder store result := by
  cases result with
  | error fault =>
    have hrest : Observes link kind iterator fuel middle (.error fault) := h
    exact hrest.cons hs
  | ok result =>
    obtain ⟨values, hfollows⟩ := h
    exact ⟨value :: values, follows_of_accepted hs hp hfollows⟩

/-- **A loop observes a stretch**: a value that is handed to the sink is observed, also the one that
the sink panics on, and no step is made beyond it. -/
theorem rounds_observes (fuel : Nat) : ∀ {slot : List UInt8} {recorder : Recorder} {store : Store},
    (Entry.yieldLayout kind).size ≤ slot.length → CoversAhead link kind iterator store →
    recorder.panicked = none →
    Serves link kind iterator fuel recorder store
      (rounds link kind (sink (Entry.yieldLayout kind)) iterator fuel slot recorder store) := by
  induction fuel with
  | zero => exact fun _ _ _ => .inr ⟨rfl, [], _, .done _, rfl, fun _ h => by cases h⟩
  | succ fuel ih =>
    intro slot recorder store hslot hcover hp
    rw [rounds]
    cases hs : next link kind iterator store with
    | error fault => exact .inl ⟨[], store, .done store, by rw [shown, hs]; rfl⟩
    | ok step =>
      have hshown := shown_of_next hs
      unfold Outcome.ofStatus at hshown
      simp only
      by_cases hok : step.status = Status.ok
      · have hread := read_eq_decoded (covers_next hcover.now hs hok) hslot
        rw [hok, Status.classify_ok] at hshown
        rw [if_pos hok, sink_eq_accept hread]
        -- the sink is handed what was observed, and nothing is asked for before it returns
        cases hpanic : (recorder.accept (decoded kind step.writes)).panicked with
        | some text => exact ⟨_, follows_of_panicked hshown hpanic⟩
        | none =>
          have hslot' : (Entry.yieldLayout kind).size ≤ (applyWrites slot step.writes).length := by
            rwa [length_applyWrites]
          exact Serves.cons hshown hpanic (ih hslot' (hcover.after (.single hshown)) hpanic)
      · rw [if_neg hok]
        by_cases hstop : step.status = Status.stop
        · rw [hstop, Status.classify_stop] at hshown
          rw [if_pos hstop]
          exact ⟨[], follows_of_ended hp hshown⟩
        · have hfail : step.status.isFailure = true := by simp [Status.isFailure, hok, hstop]
          rw [Status.classify_of_isFailure hfail] at hshown
          rw [if_neg hstop]
          refine ⟨[], follows_of_ended hp ?_⟩
          rw [hshown, LoopExit.ofStatus, Status.classify_of_isFailure hfail]
          rfl

end Exec

end PullIter
