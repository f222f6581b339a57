import PullIter.Proofs.Exec.Runtime
import PullIter.Proofs.Host.Handles

/-!
# The compiled loop and the loop of the host

A loop over a value can be run by compiled code, which hands each value to a sink, or by the host,
which makes an iterator, drains it and drops it.  The two loops were written apart from each
other: they keep their values in different buffers, and they pass exhaustion on in different ways.
They agree in everything that can be seen.

## Main definitions

* `Exec.Reaches` — the stores in which the rounds of a loop begin.
* `Compiled.LeavesCover` — the leaves of a value store whole values, in every round of a loop.
* `Compiled.drainValue` — the loop of the host.

## Main results

* `rounds_eq_drainWithin` — the rounds of the two loops, in lockstep.
* `hostForEach_eq_drainValue` — **the two loops agree.**
-/

namespace PullIter

namespace Exec

/-- The stores in which the rounds of a loop begin, with the values that came before. -/
inductive Reaches (link : Linkage) (kind : Kind) (iterator : UInt64) : Store → Store → Prop
  | start (store : Store) : Reaches link kind iterator store store
  | round {store after : Store} {step : Step} (h : next link kind iterator store = .ok step)
      (ok : step.status = Status.ok) (rest : Reaches link kind iterator step.store after) :
      Reaches link kind iterator store after

/-- Every leaf that produces a value in a loop stores all of it. -/
def LoopCovers (link : Linkage) (kind : Kind) (iterator : UInt64) (store : Store) : Prop :=
  ∀ at_, Reaches link kind iterator store at_ →
    ∀ call ∈ leafCalls link kind iterator at_, call.Covers link

theorem LoopCovers.round {link : Linkage} {kind : Kind} {iterator : UInt64} {store : Store}
    (h : LoopCovers link kind iterator store) {step : Step}
    (hs : next link kind iterator store = .ok step) (ok : step.status = Status.ok) :
    LoopCovers link kind iterator step.store :=
  fun at_ hr => h at_ (.round hs ok hr)

theorem LoopCovers.covers {link : Linkage} {kind : Kind} {iterator : UInt64} {store : Store}
    (h : LoopCovers link kind iterator store) {step : Step}
    (hs : next link kind iterator store = .ok step) (ok : step.status = Status.ok) :
    (Entry.yieldLayout kind).Covers step.writes :=
  covers_next (h store (.start store)) hs ok

end Exec

namespace Compiled

/-- The leaves of a value store all the scalars of what they yield whenever they produce a value,
in every round of a loop over the value. -/
def LeavesCover (unit : Compiled) (kind : Kind) (value : UInt64) (store : Store) : Prop :=
  ∀ iterator after, Exec.getiter unit.provided kind value store = .ok (iterator, after) →
    Exec.LoopCovers unit.provided kind iterator after

/-- The loop of the host: make an iterator, drain it and drop it. -/
def drainValue (unit : Compiled) (kind : Kind) (value : UInt64) (store : Store) :
    Hosted (List Value × LoopEnd) :=
  match unit.hostIter kind value store with
  | .error fault => .error fault
  | .ok (.error e, store) => .ok (.error e, store)
  | .ok (.ok handle, store) =>
    match handle.drain unit store with
    | .error fault => .error fault
    | .ok ((values, ending), handle, store) =>
      (handle.drop unit store).map fun store => (.ok (values, .exit ending), store)

end Compiled

/-! ### Round by round -/

/-- A sink that never panics records the value that the buffer holds. -/
theorem Recorder.sink_eq {layout : Layout} {buffer : List UInt8} {value : Value}
    (h : layout.read buffer = .ok (some value)) (seen : List Value) :
    Recorder.sink layout buffer ⟨seen, none, none⟩ = .ok (Status.ok, ⟨value :: seen, none, none⟩) := by
  unfold Recorder.sink
  rw [h]
  rfl

theorem LoopExit.ofStatus_of_isFailure {status : Status} (h : status.isFailure = true) :
    LoopExit.ofStatus status = .failed status := by
  unfold LoopExit.ofStatus
  rw [Status.classify_of_isFailure h]

/-- How the rounds of the two loops correspond: the same faults, and otherwise the same values,
the same store, and a status word that stands for the same exit. -/
def SameRounds (seen : List Value) :
    Except Fault (Status × Recorder × Store) →
    Except Fault ((List Value × LoopExit) × Handle × Store) → Prop
  | .error fault, .error fault' => fault = fault'
  | .ok (status, recorder, store), .ok ((values, ending), _, store') =>
    recorder = ⟨values.reverse ++ seen, none, none⟩ ∧ LoopExit.ofStatus status = ending ∧
      store = store'
  | _, _ => False

theorem SameRounds.cons {seen : List Value} {value : Value}
    {left : Except Fault (Status × Recorder × Store)}
    {right : Except Fault ((List Value × LoopExit) × Handle × Store)}
    (h : SameRounds (value :: seen) left right) :
    SameRounds seen left (right.map fun ((values, ending), rest) => ((value :: values, ending), rest)) := by
  cases left with
  | error fault => cases right with
    | error fault' => exact h
    | ok => exact h
  | ok left => cases right with
    | error => exact h
    | ok right =>
      obtain ⟨hrec, hexit, hstore⟩ := h
      refine ⟨?_, hexit, hstore⟩
      rw [hrec, List.reverse_cons, List.append_assoc]
      rfl

/-- **The rounds of the two loops**, in lockstep.  The two buffers may hold anything before the
first round: a round with a value leaves the same value in both. -/
theorem rounds_eq_drainWithin {unit : Compiled} {kind : Kind} (fuel : Nat) :
    ∀ {handle : Handle} {slot : List UInt8} (seen : List Value) {store : Store},
      handle.Drives unit kind → (Entry.yieldLayout kind).size ≤ slot.length →
      Exec.LoopCovers unit.provided kind handle.iterator store →
      SameRounds seen
        (Exec.rounds unit.provided kind (Recorder.sink (Entry.yieldLayout kind)) handle.iterator fuel
          slot ⟨seen, none, none⟩ store)
        (handle.drainWithin unit fuel store) := by
  have hsound : (Entry.yieldLayout kind).Sound := Layout.sound_ofType (by decide) kind.yields
  induction fuel with
  | zero => intro handle slot seen store hd hslot hc; rfl
  | succ fuel ih =>
    intro handle slot seen store hd hslot hc
    unfold Exec.rounds Handle.drainWithin Handle.step
    rw [hd.next]
    cases hs : Exec.next unit.provided kind handle.iterator store with
    | error fault => rfl
    | ok step =>
      simp only
      by_cases hok : step.status = Status.ok
      · -- the value is read from the covered bytes in both loops
        have hcov := hc.covers hs hok
        obtain ⟨value, hv⟩ := Layout.exists_read hsound (applyWrites slot step.writes)
          (by rwa [length_applyWrites])
        have hbuffer := hd.buffer
        rw [hd.layout] at hbuffer
        have hv' : handle.layout.read (applyWrites handle.buffer step.writes) = .ok (some value) := by
          rw [hd.layout, ← hv]
          exact Layout.read_applyWrites hsound hcov hbuffer hslot
        rw [if_pos hok, Recorder.sink_eq hv, hok, Status.classify_ok]
        simp only [hv', if_true]
        apply SameRounds.cons
        exact ih _ (hd.applyWrites step.writes) (by rwa [length_applyWrites]) (hc.round hs hok)
      · rw [if_neg hok]
        by_cases hstop : step.status = Status.stop
        · rw [if_pos hstop, hstop, Status.classify_stop]
          exact ⟨rfl, rfl, rfl⟩
        · have hfail : step.status.isFailure = true := by simp [Status.isFailure, hok, hstop]
          rw [if_neg hstop, Status.classify_of_isFailure hfail]
          exact ⟨rfl, LoopExit.ofStatus_of_isFailure hfail, rfl⟩

/-- Advancing a handle does not change which iterator it holds, nor how that is released. -/
theorem Handle.Drives.of_drainWithin {unit : Compiled} {kind : Kind} (fuel : Nat) :
    ∀ {handle last : Handle} {values : List Value} {ending : LoopExit} {store after : Store},
      handle.Drives unit kind →
      handle.drainWithin unit fuel store = .ok ((values, ending), last, after) →
      last.Drives unit kind ∧ last.iterator = handle.iterator := by
  induction fuel with
  | zero => intro handle last values ending store after hd h; cases h
  | succ fuel ih =>
    intro handle last values ending store after hd h
    rw [Handle.drainWithin] at h
    cases hs : handle.step unit store with
    | error fault => rw [hs] at h; cases h
    | ok result =>
      obtain ⟨outcome, handle', store'⟩ := result
      have hdrives : handle'.Drives unit kind ∧ handle'.iterator = handle.iterator :=
        hd.of_step hs
      rw [hs] at h
      cases outcome with
      | valid value =>
        simp only at h
        cases hr : handle'.drainWithin unit fuel store' with
        | error fault => rw [hr] at h; cases h
        | ok rest =>
          obtain ⟨⟨rvalues, rending⟩, rlast, rafter⟩ := rest
          rw [hr] at h
          cases h
          obtain ⟨hd', hi⟩ := ih hdrives.1 hr
          exact ⟨hd', hi.trans hdrives.2⟩
      | exhausted => cases h; exact hdrives
      | failure code => cases h; exact hdrives

/-! ### The whole loop -/

namespace Compiled

/-- **The two loops agree.**  A compiled loop with a sink that never panics and the loop of the
host over the same value deliver the same values in the same order, end in the same way and leave
the same store, whatever the slot of the compiled loop holds at first. -/
theorem hostForEach_eq_drainValue {unit : Compiled} {options : Options}
    {externals : List (String × Provider)} {requests : List Request}
    (h : unit.Finished options externals requests) (hygienic : unit.Hygienic) {kind : Kind}
    (hloop : unit.isAvailable ⟨.forEach, kind⟩ = true)
    (hiter : unit.isAvailable ⟨.getiter, kind⟩ = true) {slot : List UInt8}
    (hslot : slot.length = Exec.slotSize kind) {value : UInt64} {store : Store}
    (hcover : unit.LeavesCover kind value store) :
    unit.hostForEach kind value none slot store = unit.drainValue kind value store := by
  obtain ⟨loopCode, hlc⟩ := exists_code hloop
  obtain ⟨iterCode, hic⟩ := exists_code hiter
  have hl := callsLinked_of_hygienic h hygienic hic
  obtain ⟨handle, hdrives, hhost⟩ := hostIter_eq h hl hic
  rw [hostForEach_eq h hl hlc, drainValue, hhost]
  unfold Exec.forEach
  cases hg : Exec.getiter unit.provided kind value store with
  | error fault => rfl
  | ok made =>
    obtain ⟨iterator, after⟩ := made
    obtain ⟨hi, hd⟩ := hdrives iterator
    have hsize : (Entry.yieldLayout kind).size ≤ slot.length := by
      rw [hslot, Exec.slotSize]
      exact Nat.le_max_right ..
    -- both loops begin with nothing seen, whatever their buffers hold
    have hrounds := rounds_eq_drainWithin (after.rounds + 1) [] hd hsize
      (by rw [hi]; exact hcover iterator after hg)
    rw [hi] at hrounds
    simp only [Except.map, Handle.drain]
    cases hleft : Exec.rounds unit.provided kind (Recorder.sink (Entry.yieldLayout kind)) iterator
        (after.rounds + 1) slot (Recorder.start none) after with
    | error fault =>
      rw [show (⟨[], none, none⟩ : Recorder) = Recorder.start none from rfl, hleft] at hrounds
      cases hright : (handle iterator).drainWithin unit (after.rounds + 1) after with
      | error fault' => rw [hright] at hrounds; cases hrounds; rfl
      | ok right => rw [hright] at hrounds; cases hrounds
    | ok left =>
      obtain ⟨status, recorder, last⟩ := left
      rw [show (⟨[], none, none⟩ : Recorder) = Recorder.start none from rfl, hleft] at hrounds
      cases hright : (handle iterator).drainWithin unit (after.rounds + 1) after with
      | error fault' => rw [hright] at hrounds; cases hrounds
      | ok right =>
        obtain ⟨⟨values, ending⟩, lastHandle, last'⟩ := right
        rw [hright] at hrounds
        obtain ⟨rfl, rfl, rfl⟩ := hrounds
        -- the drain ends with the handle of the same iterator, which is what the loop releases
        obtain ⟨hd', hi'⟩ := hd.of_drainWithin _ hright
        simp only [hd'.drop, hi', hi]
        cases Exec.releaseMade unit.provided kind iterator last with
        | error fault => rfl
        | ok end_ => simp [Recorder.values, Recorder.ending]

/-- The leaves of a value store whole values in every round, if they are built-in objects. -/
theorem leavesCover_of_builtIn {unit : Compiled} (h : unit.RunsRuntime) {kind : Kind}
    (hb : ∀ leaf ∈ kind.leafKinds, Exec.BuiltIn leaf) (value : UInt64) (store : Store) :
    unit.LeavesCover kind value store :=
  fun iterator _ _ at_ _ => Exec.covers_leafCalls_of_builtIn h hb iterator at_

/-- The two loops over a pair, where the slot of the compiled loop is not cleared. -/
theorem hostForEach_eq_drainValue_pair : ∃ unit : Compiled,
    unit.Finished .debug [] [.iterator pairKind, .loop pairKind] ∧ unit.Hygienic ∧
      unit.isAvailable ⟨.forEach, pairKind⟩ = true ∧
      unit.isAvailable ⟨.getiter, pairKind⟩ = true ∧ unit.LeavesCover pairKind 4 pairStore ∧
      unit.hostForEach pairKind 4 none (List.replicate (Exec.slotSize pairKind) 255) pairStore =
        unit.drainValue pairKind 4 pairStore := by
  have hleaves : ∀ leaf ∈ pairKind.leafKinds, Exec.BuiltIn leaf := by
    intro leaf hm
    have hrange : leaf = .range := by simpa [pairKind, Kind.leafKinds, Kind.leafKindsList,
      Kind.range] using hm
    exact .inr (.inl hrange)
  have hcover : ∀ {unit : Compiled}, unit.Finished .debug [] [.iterator pairKind, .loop pairKind] →
      unit.LeavesCover pairKind 4 pairStore := by
    intro unit h
    refine leavesCover_of_builtIn (runsRuntime_of_finished h ?_) hleaves _ _
    intro external hm
    simp at hm
  refine ⟨_, rfl, ?_, rfl, rfl, hcover rfl, ?_⟩
  · unfold Hygienic
    decide +kernel
  · refine @hostForEach_eq_drainValue _ .debug [] [.iterator pairKind, .loop pairKind] ?_ ?_ pairKind
      ?_ ?_ _ (List.length_replicate ..) 4 pairStore (hcover ?_)
    · rfl
    · unfold Hygienic
      decide +kernel
    · rfl
    · rfl
    · rfl

end Compiled

end PullIter
