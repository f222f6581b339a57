import PullIter.Proofs.Exec.Linking

/-!
# What the wrappers of the host do

A wrapper looks up its code and then runs it.  On a finished unit in which no lowered body takes
the place of a symbol, the code runs the linked routines, and whatever a wrapper has to release
later was looked up when the object was made.

## Main definitions

* `Handle.Drives` — the handle of an iterator of a kind.
* `Constructed.Holds` — a combinator of a kind that the host has made.

## Main results

* `hostIter_eq`, `hostForEach_eq`, `hostConstruct_eq_ok` — what the wrappers run.
-/

namespace PullIter

namespace Exec

/-- What `getiter` returns for a value is advanced like the value. -/
theorem next_iteratorKind (link : Linkage) {kind : Kind} (h : kind.check = .ok ())
    (iterator : UInt64) (store : Store) :
    next link kind.iteratorKind iterator store = next link kind iterator store := by
  cases kind with
  | enumerate => rfl
  | zip => rfl
  | generator => rfl
  | external ext => cases ext with
    | iterator => rfl
    | iterable name yields getiter made => cases made with
      | iterator => simp only [Kind.iteratorKind, External.made, next]
      | iterable => cases h

end Exec

/-- A handle whose code advances and releases its iterator as one of a kind. -/
structure Handle.Drives (unit : Compiled) (kind : Kind) (handle : Handle) : Prop where
  next : ∀ store, unit.next handle.next handle.iterator store =
    Exec.next unit.provided kind handle.iterator store
  drop : ∀ store, handle.drop unit store = Exec.releaseMade unit.provided kind handle.iterator store
  layout : handle.layout = Entry.yieldLayout kind
  buffer : handle.layout.size ≤ handle.buffer.length

/-- A combinator of a kind that the host has made: dropping it releases it. -/
def Constructed.Holds (unit : Compiled) (kind : Kind) (made : Constructed) : Prop :=
  ∀ store, unit.hostDrop made store = Exec.release unit.provided kind made.address store

namespace Compiled

variable {unit : Compiled} {options : Options} {externals : List (String × Provider)}
  {requests : List Request}

/-- The symbols of what `getiter` returns are symbols of the kind. -/
theorem CallsLinked.mono {part whole : Kind} (h : unit.CallsLinked whole)
    (hw : part.Within whole) : unit.CallsLinked part :=
  fun symbol hs => h symbol (hw.symbols hs)

/-- **Making an iterator** runs the routine that is linked, and the handle drives what it
returned. -/
theorem hostIter_eq (h : unit.Finished options externals requests) {kind : Kind}
    (hl : unit.CallsLinked kind) {code : Code} (hc : unit.entryCode ⟨.getiter, kind⟩ = .ok code) :
    ∃ handle : UInt64 → Handle,
      (∀ iterator, (handle iterator).iterator = iterator ∧
        (handle iterator).Drives unit kind) ∧
      ∀ value store, unit.hostIter kind value store =
        (Exec.getiter unit.provided kind value store).map fun (iterator, store) =>
          (.ok (handle iterator), store) := by
  have hcheck : kind.check = .ok () := h.check hc
  obtain ⟨nextCode, hn⟩ := h.iternext_of_getiter hc
  have hmade := hl.mono (Kind.within_iteratorKind kind)
  have hnext : ∀ iterator store, unit.next nextCode iterator store =
      Exec.next unit.provided kind iterator store := fun iterator store => by
    rw [next_eq hmade (h.provides hn), Exec.next_iteratorKind _ hcheck]
  -- what has to be released later is found now
  obtain ⟨release, hrel, hdrop⟩ : ∃ release : Option Code,
      (if kind.ownership = .owned then unit.releaseCode kind.iteratorKind else .ok none) =
        .ok release ∧
      ∀ (handle : Handle) store, handle.release = release →
        handle.drop unit store = Exec.releaseMade unit.provided kind handle.iterator store := by
    by_cases hr : kind.releasesMade = true
    · obtain ⟨releaseCode, hrc⟩ := h.release_of_getiter hc hr
      refine ⟨some releaseCode, ?_, fun handle store hrelease => ?_⟩
      · unfold Kind.releasesMade at hr
        rw [Bool.and_eq_true, decide_eq_true_eq] at hr
        rw [if_pos hr.1, Compiled.releaseCode, if_pos hr.2, hrc]
        rfl
      · rw [Handle.drop, hrelease]
        exact release_made_eq hr (h.provides hrc) _ _
    · have hr' : kind.releasesMade = false := by simpa using hr
      refine ⟨none, ?_, fun handle store hrelease => ?_⟩
      · unfold Kind.releasesMade at hr
        rw [Bool.and_eq_true, decide_eq_true_eq, not_and] at hr
        split
        · next howned => rw [Compiled.releaseCode, if_neg (hr howned)]
        · rfl
      · rw [Handle.drop, hrelease, Exec.releaseMade_of_not_releasesMade hr']
  refine ⟨fun iterator => ⟨iterator, nextCode, release, kind.ownership, Entry.yieldLayout kind,
    List.replicate (Arg.paddedSize (Entry.yieldLayout kind).size) 0⟩, fun iterator => ⟨rfl, ?_⟩, ?_⟩
  · refine ⟨hnext iterator, fun store => hdrop _ store rfl, rfl, ?_⟩
    rw [List.length_replicate]
    exact Arg.le_paddedSize _
  · intro value store
    unfold hostIter
    simp only [hc, hn, hrel, getiter_eq hl (h.provides hc)]

/-- **Running a loop** runs the linked routines. -/
theorem hostForEach_eq (h : unit.Finished options externals requests) {kind : Kind}
    (hl : unit.CallsLinked kind) {code : Code} (hc : unit.entryCode ⟨.forEach, kind⟩ = .ok code)
    (value : UInt64) (trap : Option (Nat × String)) (slot : List UInt8) (store : Store) :
    unit.hostForEach kind value trap slot store =
      (Exec.forEach unit.provided kind (Recorder.sink (Entry.yieldLayout kind)) slot value
        (Recorder.start trap) store).map fun (status, recorder, store) =>
          (.ok (recorder.values, recorder.ending status), store) := by
  unfold hostForEach
  simp only [hc, forEach_eq hl (h.provides hc)]

/-- What the host has made, it had the code for. -/
theorem exists_code_of_hostConstruct {kind : Kind} {args : List Arg} {store after : Store}
    {made : Constructed} (hm : unit.hostConstruct kind args store = .ok (.ok made, after)) :
    ∃ code, unit.entryCode ⟨.construct (args.map Arg.kind), kind⟩ = .ok code := by
  unfold hostConstruct at hm
  simp only at hm
  split at hm
  · cases hm
  · split at hm
    · cases hm
    · cases hm
    · cases hc : unit.entryCode ⟨.construct (args.map Arg.kind), kind⟩ with
      | error e => rw [hc] at hm; cases hm
      | ok code => exact ⟨code, rfl⟩

theorem exists_code_of_hostIter {kind : Kind} {value : UInt64} {store after : Store} {made : Handle}
    (hm : unit.hostIter kind value store = .ok (.ok made, after)) :
    ∃ code, unit.entryCode ⟨.getiter, kind⟩ = .ok code := by
  unfold hostIter at hm
  cases hc : unit.entryCode ⟨.getiter, kind⟩ with
  | error e => simp only [hc] at hm; cases hm
  | ok code => exact ⟨code, rfl⟩

theorem exists_code_of_hostForEach {kind : Kind} {value : UInt64} {trap : Option (Nat × String)}
    {slot : List UInt8} {store after : Store} {result : List Value × LoopEnd}
    (hm : unit.hostForEach kind value trap slot store = .ok (.ok result, after)) :
    ∃ code, unit.entryCode ⟨.forEach, kind⟩ = .ok code := by
  unfold hostForEach at hm
  cases hc : unit.entryCode ⟨.forEach, kind⟩ with
  | error e => rw [hc] at hm; cases hm
  | ok code => exact ⟨code, rfl⟩

/-- Only combinators have arguments, and they have to be released. -/
theorem needsRelease_of_argsLayout? {kind : Kind} {args : List Scalar} {layout : Layout}
    (h : Entry.argsLayout? kind args = some layout) :
    kind.needsRelease = true ∧ (⟨.release, kind⟩ : Entry).provision = .lowered := by
  cases kind with
  | enumerate => exact ⟨rfl, rfl⟩
  | zip => exact ⟨rfl, rfl⟩
  | generator => cases h
  | external => cases h

/-- **Making a combinator** packs the arguments and runs the body; what was made can be dropped. -/
theorem hostConstruct_eq_ok (h : unit.Finished options externals requests) {kind : Kind}
    {args : List Arg} (hl : unit.CallsLinked kind) {store after : Store} {made : Constructed}
    (hm : unit.hostConstruct kind args store = .ok (.ok made, after)) :
    kind.needsRelease = true ∧ made.Holds unit kind ∧ ∃ layout record,
      Entry.argsLayout? kind (args.map Arg.kind) = some layout ∧
      Arg.pack layout args = .ok (.ok record) ∧
      Exec.construct unit.provided kind (args.map Arg.kind) record store =
        .ok (made.address, after) := by
  unfold hostConstruct at hm
  simp only at hm
  split at hm
  · cases hm
  · next layout hlayout =>
    obtain ⟨hneeds, hlow⟩ := needsRelease_of_argsLayout? hlayout
    split at hm
    · cases hm
    · cases hm
    · next record hpack =>
      split at hm
      · cases hm
      · cases hm
      · next code release hcode hrelease =>
        rw [releaseCode, if_pos hneeds] at hrelease
        cases hr : unit.entryCode ⟨.release, kind⟩ with
        | error e => rw [hr] at hrelease; cases hrelease
        | ok releaseCode =>
          rw [hr] at hrelease
          cases hrelease
          rw [construct_eq hl (h.provides hcode)] at hm
          cases hx : Exec.construct unit.provided kind (args.map Arg.kind) record store with
          | error fault => rw [hx] at hm; cases hm
          | ok result =>
            rw [hx] at hm
            cases hm
            refine ⟨hneeds, fun store => ?_, layout, record, hlayout, hpack, hx⟩
            exact release_eq hl (h.provides hr) hlow _ _

end Compiled

namespace Handle.Drives

variable {unit : Compiled} {kind : Kind} {handle : Handle}

/-- Storing into the buffer of a handle changes nothing else. -/
theorem applyWrites (h : handle.Drives unit kind) (ws : List Write) :
    Drives unit kind { handle with buffer := PullIter.applyWrites handle.buffer ws } :=
  ⟨h.next, h.drop, h.layout, by rw [length_applyWrites]; exact h.buffer⟩

/-- A step does not change which iterator a handle holds, nor how that is advanced or released. -/
theorem of_step (h : handle.Drives unit kind) {outcome : Outcome} {after : Handle}
    {store last : Store} (hs : handle.step unit store = .ok (outcome, after, last)) :
    after.Drives unit kind ∧ after.iterator = handle.iterator := by
  unfold Handle.step at hs
  split at hs
  · cases hs
  · next step _ =>
    have hafter := h.applyWrites step.writes
    split at hs
    · cases hs; exact ⟨hafter, rfl⟩
    · cases hs; exact ⟨hafter, rfl⟩
    · simp only at hs
      split at hs
      · cases hs
      · cases hs
      · cases hs; exact ⟨hafter, rfl⟩

end Handle.Drives

namespace Compiled

/-- An available entry point has its code. -/
theorem exists_code {unit : Compiled} {entry : Entry} (h : unit.isAvailable entry = true) :
    ∃ code, unit.entryCode entry = .ok code := by
  unfold isAvailable at h
  cases hc : unit.entryCode entry with
  | error e => rw [hc] at h; cases h
  | ok code => exact ⟨code, rfl⟩

end Compiled

end PullIter
