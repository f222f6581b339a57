import PullIter.Proofs.Shared.Chronicle
import PullIter.Proofs.Shared.Session

/-!
# Outcomes only get worse

Whoever asks an iterator for steps, and whatever else is asked in between: the iterator has values,
then it is exhausted, then it fails.

## Main definitions

* `World.callsFor` — the calls that asked an iterator.

## Main results

* `Status.split_of_pairwise` — what status words that only get worse look like.
* `World.Reached.outcomes_decline` — **the outcomes of any iterator only get worse.**
-/

namespace PullIter

open Linkage (runtime)

/-- Status words that only get worse: values, exhaustion, failures. -/
theorem Status.split_of_pairwise {statuses : List Status}
    (h : statuses.Pairwise fun status later => status.severity ≤ later.severity) :
    ∃ values ends failures, statuses = List.replicate values Status.ok ++
      List.replicate ends Status.stop ++ failures ∧
      ∀ status ∈ failures, status.isFailure = true := by
  induction statuses with
  | nil => exact ⟨0, 0, [], rfl, fun _ hm => absurd hm List.not_mem_nil⟩
  | cons status rest ih =>
    obtain ⟨hworse, hrest⟩ := List.pairwise_cons.mp h
    obtain ⟨values, ends, failures, rfl, hfailures⟩ := ih hrest
    by_cases hok : status = Status.ok
    · exact ⟨values + 1, ends, failures, by rw [hok]; rfl, hfailures⟩
    -- behind a step without a value there is no value
    have hnovalues : values = 0 := by
      cases values with
      | zero => rfl
      | succ values =>
        have hle : status.severity ≤ Status.ok.severity := hworse _ (List.mem_cons_self ..)
        exact absurd ((severity_eq_zero_iff _).mp (Nat.le_zero.mp hle)) hok
    subst hnovalues
    by_cases hstop : status = Status.stop
    · exact ⟨0, ends + 1, failures, by rw [hstop]; rfl, hfailures⟩
    have hfail : status.isFailure = true := by simp [isFailure, hok, hstop]
    have hnoends : ends = 0 := by
      cases ends with
      | zero => rfl
      | succ ends =>
        have hle : status.severity ≤ Status.stop.severity := hworse _ (List.mem_cons_self ..)
        rw [(severity_eq_two_iff _).mpr hfail] at hle
        exact absurd hle (by decide)
    subst hnoends
    refine ⟨0, 0, status :: failures, rfl, fun found hm => ?_⟩
    rcases List.mem_cons.mp hm with rfl | hm
    · exact hfail
    · exact hfailures found hm

namespace World

/-- The calls that asked an iterator, in the order of time, whoever made them. -/
def callsFor (world : World) (iterator : UInt64) : List Asked :=
  world.calls.filter (·.iterator = iterator)

/-- **The outcomes of any iterator only get worse.**  Arrays, ranges and coroutines are shared by
combinators, handles and loops, all of which ask any of them in any order.  The calls that are made
for one iterator have values, then it is exhausted, and then it fails.  It goes on to fail in the
same way, unless it fails because of a source of a zip that comes before the one that had failed. -/
theorem Reached.outcomes_decline {world : World} (h : world.Reached) (iterator : UInt64) :
    (∀ call ∈ world.callsFor iterator, call.Holds runtime) ∧
    (∃ values ends failures, (world.callsFor iterator).map (·.step.status) =
      List.replicate values Status.ok ++ List.replicate ends Status.stop ++ failures ∧
      ∀ status ∈ failures, status.isFailure = true) ∧
    (world.callsFor iterator).Pairwise fun call later => call.step.status.isFailure = true →
      later.reply runtime = call.reply runtime ∨
        Sooner (later.reply runtime).way (call.reply runtime).way := by
  obtain ⟨cast, -, hchronicle⟩ := h.exists_sound Chronicle.recorded (.nil ..)
  have hsame : ∀ call ∈ world.callsFor iterator, call ∈ world.calls ∧ call.iterator = iterator :=
    fun call hm => ⟨List.mem_of_mem_filter hm, by simpa using List.of_mem_filter hm⟩
  have hdeclines : (world.callsFor iterator).Pairwise fun call later =>
      Reply.Declines (call.reply runtime) (later.reply runtime) :=
    (hchronicle.declines.filter _).imp_of_mem fun hcall hlater hd =>
      hd ((hsame _ hcall).2.trans (hsame _ hlater).2.symm)
  refine ⟨fun call hm => ?_, Status.split_of_pairwise ?_, hdeclines.imp fun hd => hd.failure⟩
  · obtain ⟨_, _, _, _, _, _, hholds, _⟩ := hchronicle.made call (hsame call hm).1
    exact hholds
  · rw [List.pairwise_map]
    exact hdeclines.imp fun hd => hd.severity

/-- A range between two coroutines in lockstep. -/
def fadingKind : Kind := .zip [.coroutine "g", .range, .coroutine "h"]

/-- What is asked for to make and to drive them. -/
def fadingRequests : List Request :=
  [.constructor fadingKind [.ptr, .ptr, .ptr], .iterator fadingKind]

/-- The unit that answers. -/
def fadingUnit : Compiled :=
  match ((Compiler.create .debug []).requestAll fadingRequests).finish with
  | .ok (.ok unit) => unit
  | _ => ⟨(Compiler.create .debug []).decls, (Compiler.create .debug []).registry⟩

theorem genuine_fadingUnit : fadingUnit.Genuine :=
  ⟨.debug, [], fadingRequests, rfl, fun _ hm => absurd hm List.not_mem_nil⟩

/-- The handle on the zip of them that is made first. -/
def fadingHandle : Handle :=
  ⟨0x7f00000078, .body ⟨.iternext, fadingKind⟩, none, .borrowed, Entry.yieldLayout fadingKind,
    List.replicate (Arg.paddedSize (Entry.yieldLayout fadingKind).size) 0⟩

/-- The range ends first, then the last source fails, and then the first: the zip of them has a
value, is exhausted, fails, and fails in another way. -/
theorem Reached.outcomes_decline_fading : ∃ (world : World) (zip : UInt64), world.Reached ∧
    (world.callsFor zip).map (·.step.status) = [Status.ok, Status.stop, -2, -5] ∧
    (world.callsFor zip).map (fun call => (call.reply runtime).way) = [[], [], [2], [0]] ∧
    ∃ values ends failures, (world.callsFor zip).map (·.step.status) =
      List.replicate values Status.ok ++ List.replicate ends Status.stop ++ failures ∧
      ∀ status ∈ failures, status.isFailure = true := by
  have first := Relation.ReflTransGen.single
    (@Turn.generator start (.given [1, 2, 3]) (some (-5)) _ _ rfl)
  have ranged := first.tail (@Turn.range _ 0 1 _ _ rfl)
  have last := ranged.tail (@Turn.generator _ (.given [10, 11]) (some (-2)) _ _ rfl)
  have zipped := last.tail (@Turn.construct _ fadingUnit fadingKind _
    [.ptr 0x7f00000000, .ptr 0x7f00000030, .ptr 0x7f00000048] _ _ genuine_fadingUnit rfl
    (by
      intro i source operand hs ho
      match i with
      | 0 => cases hs; cases ho; exact ⟨.generator, rfl, .tail _ (.tail _ (.head _))⟩
      | 1 => cases hs; cases ho; exact ⟨.range, rfl, .tail _ (.head _)⟩
      | 2 => cases hs; cases ho; exact ⟨.generator, rfl, .head _⟩) rfl)
  have held := zipped.tail (@Turn.deed _ (.iter fadingUnit fadingKind 0x7f00000078) _ _
    ⟨genuine_fadingUnit, _, rfl, .head _⟩ rfl)
  have valid := @Reached.step _ fadingUnit fadingKind fadingHandle held (.head _) (by decide +kernel)
  have exhausted := valid.1.step valid.2 (by decide +kernel)
  have failed := exhausted.1.step exhausted.2 (by decide +kernel)
  have again := failed.1.step failed.2 (by decide +kernel)
  exact ⟨_, 0x7f00000078, again.1, by decide +kernel, by decide +kernel,
    (Reached.outcomes_decline again.1 _).2.1⟩

end World

end PullIter
