import PullIter.Proofs.Exec.Discipline
import PullIter.Proofs.Host.Handles

/-!
# Output buffers

The host hands a buffer to the code that advances an iterator, and hands the same buffer to it
again for the next step.  The code stores what the step yields and nothing else, and whatever the
buffer held before cannot be told from the outcome.

## Main definitions

* `Handle.shows` — what a step of a handle shows to the host.

## Main results

* `Handle.shows_eq` — what a step shows depends on the iterator and the store only.
* `next_keeps_buffer` — **the discipline of output buffers.**
-/

namespace PullIter

/-- Only the word for a value means one. -/
theorem Status.eq_ok_of_classify {status : Status} (h : status.classify = .ok) :
    status = Status.ok := by
  unfold classify at h
  split at h
  · assumption
  · split at h <;> cases h

/-- What a step of a handle shows: its outcome, and the store after it. -/
def Handle.shows (unit : Compiled) (handle : Handle) (store : Store) :
    Except Fault (Outcome × Store) :=
  (handle.step unit store).map fun (outcome, _, store) => (outcome, store)

/-- **What a step shows** depends on the iterator and the store only, if the leaves store whole
values. -/
theorem Handle.shows_eq {unit : Compiled} {kind : Kind} {handle : Handle}
    (hnext : ∀ store, unit.next handle.next handle.iterator store =
      Exec.next unit.provided kind handle.iterator store)
    (hlayout : handle.layout = Entry.yieldLayout kind)
    (hbuffer : (Entry.yieldLayout kind).size ≤ handle.buffer.length) {store : Store}
    (hcover : ∀ call ∈ Exec.leafCalls unit.provided kind handle.iterator store,
      call.Covers unit.provided) :
    handle.shows unit store = Exec.shown unit.provided kind handle.iterator store := by
  unfold Handle.shows Handle.step Exec.shown
  rw [hnext]
  cases hs : Exec.next unit.provided kind handle.iterator store with
  | error fault => rfl
  | ok step =>
    simp only [Except.map, Outcome.ofStatus]
    -- the buffer is looked at only where the step has a value
    cases hclass : step.status.classify with
    | stop => rfl
    | failure code => rfl
    | ok =>
      have hok := Status.eq_ok_of_classify hclass
      have hread := Exec.read_eq_decoded (Exec.covers_next hcover hs hok) hbuffer
      simp only [hlayout, hread]

namespace Compiled

/-- **The discipline of output buffers.**  The code that advances an iterator makes a step in
memory, and so does the body, whatever stands behind its symbols.  Whatever the leaves do, they are
given slots of the buffer that are apart from each other and from all counts, and as long as they
keep to their slots the step keeps to the buffer.  Where they store whole values, and do not look at
memory, two steps from the same store end alike in any two buffers: with the same status and store,
and with the same value if there is one.  So a handle shows the same whatever its buffer holds. -/
theorem next_keeps_buffer {unit : Compiled} {options : Options}
    {externals : List (String × Provider)} {requests : List Request}
    (h : unit.Finished options externals requests) (hygienic : unit.Hygienic) {kind : Kind}
    {code : Code} (hc : unit.entryCode ⟨.iternext, kind⟩ = .ok code) :
    (∀ iterator out memory store, (unit.next code iterator store).map (Step.storedAt out memory) =
      Exec.nextIn unit.provided.leaves kind iterator out memory store) ∧
    (∀ link iterator out memory store,
      ((Code.body ⟨.iternext, kind⟩).next link iterator store).map (Step.storedAt out memory) =
        Exec.nextIn link.leaves kind iterator out memory store) ∧
    (∀ leaves iterator out memory store,
      Exec.Disciplined leaves kind iterator out memory store) ∧
    (∀ link iterator store,
      (∀ call ∈ Exec.leafCalls link kind iterator store, call.Covers link) →
      ∀ out out' memory memory', out + (Entry.yieldLayout kind).size ≤ memory.length →
        out' + (Entry.yieldLayout kind).size ≤ memory'.length →
        Exec.Alike (Entry.yieldLayout kind) out out'
          (Exec.nextIn link.leaves kind iterator out memory store)
          (Exec.nextIn link.leaves kind iterator out' memory' store)) ∧
    ∀ (handle : Handle) (buffer : List UInt8) (store : Store), handle.next = code →
      handle.layout = Entry.yieldLayout kind →
      (Entry.yieldLayout kind).size ≤ handle.buffer.length →
      (Entry.yieldLayout kind).size ≤ buffer.length →
      (∀ call ∈ Exec.leafCalls unit.provided kind handle.iterator store,
        call.Covers unit.provided) →
      handle.shows unit store = { handle with buffer := buffer }.shows unit store := by
  have hnext : ∀ iterator store, unit.next code iterator store =
      Exec.next unit.provided kind iterator store := fun iterator store =>
    next_eq (callsLinked_of_hygienic h hygienic hc) (h.provides hc) iterator store
  refine ⟨fun iterator out memory store => ?_, fun link iterator out memory store => ?_,
    fun leaves => Exec.disciplined_nextIn leaves kind, ?_, ?_⟩
  · rw [hnext, Exec.nextIn_leaves]
  · rw [Exec.nextIn_leaves]
    rfl
  · exact fun link iterator store hcover out out' memory memory' hsize hsize' =>
      Exec.alike_nextIn hcover hsize hsize'
  · intro handle buffer store hcode hlayout hbuffer hbuffer' hcover
    have hdrives : ∀ store, unit.next handle.next handle.iterator store =
        Exec.next unit.provided kind handle.iterator store := fun store => by
      rw [hcode]
      exact hnext _ _
    -- both handles show what the step shows, which does not mention a buffer
    let other : Handle := { handle with buffer := buffer }
    have hother : other.shows unit store = Exec.shown unit.provided kind handle.iterator store :=
      @Handle.shows_eq unit kind other hdrives hlayout hbuffer' store hcover
    exact (Handle.shows_eq hdrives hlayout hbuffer hcover).trans hother.symm

/-- The discipline at a step of a pair, whose leaves are two ranges: they keep to their slots and
store whole values.  One of the buffers lies within memory that is not cleared. -/
theorem next_keeps_buffer_pair : ∃ (unit : Compiled) (code : Code),
    unit.Finished .debug [] [.iterator pairKind] ∧ unit.Hygienic ∧
      unit.entryCode ⟨.iternext, pairKind⟩ = .ok code ∧
      (∀ call ∈ Exec.callsIn unit.provided.leaves pairKind 4 16 (List.replicate 64 255) pairStore,
        call.Confined unit.provided.leaves) ∧
      (∀ call ∈ Exec.leafCalls unit.provided pairKind 4 pairStore, call.Covers unit.provided) ∧
      Exec.Disciplined unit.provided.leaves pairKind 4 16 (List.replicate 64 255) pairStore ∧
      Exec.Alike (Entry.yieldLayout pairKind) 16 0
        (Exec.nextIn unit.provided.leaves pairKind 4 16 (List.replicate 64 255) pairStore)
        (Exec.nextIn unit.provided.leaves pairKind 4 0 (List.replicate 24 0) pairStore) := by
  have hleaves := Exec.builtIn_of_mem_leafKinds_pair
  have hruns : ∀ {unit : Compiled}, unit.Finished .debug [] [.iterator pairKind] →
      unit.RunsRuntime := fun h => runsRuntime_of_finished h (by intro external hm; simp at hm)
  refine ⟨_, .body ⟨.iternext, pairKind⟩, rfl, ?_, rfl, ?_, ?_, ?_, ?_⟩
  · unfold Hygienic
    decide +kernel
  · exact fun call hc => Exec.confined_of_builtIn (hruns rfl)
      (hleaves _ (Exec.kind_mem_leafKinds_of_callsIn hc))
  · exact Exec.covers_leafCalls_of_builtIn (hruns rfl) hleaves 4 pairStore
  · refine (@next_keeps_buffer _ .debug [] [.iterator pairKind] rfl ?_ pairKind
      (.body ⟨.iternext, pairKind⟩) rfl).2.2.1 _ _ _ _ _
    unfold Hygienic
    decide +kernel
  · refine (@next_keeps_buffer _ .debug [] [.iterator pairKind] rfl ?_ pairKind
      (.body ⟨.iternext, pairKind⟩) rfl).2.2.2.1 _ _ _
      (Exec.covers_leafCalls_of_builtIn (hruns rfl) hleaves 4 pairStore) _ _ _ _ ?_ ?_
    · unfold Hygienic
      decide +kernel
    · decide
    · decide

end Compiled

end PullIter
