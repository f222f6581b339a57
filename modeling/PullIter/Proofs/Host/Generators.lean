import PullIter.Proofs.Tree.Step

/-!
# Resuming a generator

A generator can be resumed by calling its routine and by calling the compiled step of a kind that is
bound to the routine, and callers may take turns.  Whoever calls, the values of the body come in
order, then comes one status word for ever, and it is never one that means a value or, for a body
that has failed, the end of the values.  The body itself is left alone once it has returned.

## Main definitions

* `Coroutine.resumptions` — a body that is resumed some times.
* `Generator.Called` — a generator over a fresh body that was called some times.
* `Entrance` — a way to call a generator, and `Entrance.Resumes`.
* `resumptionAt` — the answer to a call, by the number of calls before it.

## Main results

* `Coroutine.resumptions_eq_iff` — a body tells how often it was resumed.
* `Generator.Called.resume` — one call of a generator.
* `Entrance.step_of_resume` — every way to call a generator resumes it.
* `resumeAll_eq_answers` — **the protocol of resumptions.**
-/

namespace PullIter

/-! ### Bodies -/

/-- **The answer to a call** of a generator over a fresh body, by the number of calls before it: the
value that is next, or how the body returned. -/
def resumptionAt (values : List Int64) (failure : Option Int32) (calls : Nat) : Resumption :=
  match values[calls]? with
  | some value => .yielded value
  | none => Tree.returned failure

/-- The answers behind the last value are final. -/
theorem isFinal_resumptionAt (values : List Int64) (failure : Option Int32) (calls : Nat) :
    (resumptionAt values failure calls).isFinal = decide (values.length ≤ calls) := by
  rw [resumptionAt]
  by_cases hover : values.length ≤ calls
  · rw [List.getElem?_eq_none hover, decide_eq_true hover]
    cases failure <;> rfl
  · rw [List.getElem?_eq_getElem (Nat.not_le.mp hover), decide_eq_false hover]
    rfl

namespace Coroutine

/-- A body that is resumed some times. -/
def resumptions (body : Coroutine) : Nat → Except Fault Coroutine
  | 0 => .ok body
  | n + 1 =>
    match body.resumptions n with
    | .error fault => .error fault
    | .ok body => body.resume.map Prod.snd

/-- How often a body can still be resumed: once for each value, and once more to its end. -/
def resumable (body : Coroutine) : Nat :=
  if body.returned then 0 else body.pending.toList.length + 1

variable {yields rest : Yields} {failure : Option Int32} {body after : Coroutine}

theorem resumptions_succ {n : Nat} {outcome : Resumption} (h : body.resumptions n = .ok after)
    {next : Coroutine} (hr : after.resume = .ok (outcome, next)) :
    body.resumptions (n + 1) = .ok next := by
  simp only [resumptions, h, hr]
  rfl

/-- A resumption uses up one of those that are left. -/
theorem resumable_of_resume {outcome : Resumption} (h : body.resume = .ok (outcome, after)) :
    body.resumable = after.resumable + 1 := by
  obtain ⟨pending, failure, returned⟩ := body
  cases returned with
  | true => cases h
  | false =>
    change (start pending failure).resume = .ok (outcome, after) at h
    cases hnext : pending.next? with
    | none =>
      rw [Tree.resume_body_of_none failure hnext] at h
      cases h
      simp [resumable, (Yields.next?_eq_none_iff pending).mp hnext]
    | some next =>
      rw [Tree.resume_body_of_next? hnext] at h
      cases h
      simp [resumable, start, Yields.toList_eq_of_next? hnext]

theorem resumable_of_resumptions {n : Nat} (h : body.resumptions n = .ok after) :
    body.resumable = after.resumable + n := by
  induction n generalizing after with
  | zero => cases h; rfl
  | succ n ih =>
    rw [resumptions] at h
    split at h
    · cases h
    · next mid hmid =>
      cases hr : mid.resume with
      | error fault => rw [hr] at h; cases h
      | ok resumed =>
        rw [hr] at h
        cases h
        rw [ih hmid, resumable_of_resume hr]
        omega

/-- **A body tells how often it was resumed.** -/
theorem resumptions_eq_iff {n : Nat} (h : body.resumptions n = .ok after) (m : Nat) :
    body.resumptions m = .ok after ↔ m = n := by
  refine ⟨fun hm => ?_, fun hm => hm ▸ h⟩
  have hn := resumable_of_resumptions h
  have hm := resumable_of_resumptions hm
  omega

/-- A fresh body that was resumed no more often than it has values stands behind as many. -/
theorem resumptions_start (failure : Option Int32) {n : Nat} (h : n ≤ yields.toList.length) :
    ∃ rest : Yields, rest.toList = yields.toList.drop n ∧
      (start yields failure).resumptions n = .ok (start rest failure) := by
  induction n with
  | zero => exact ⟨yields, rfl, rfl⟩
  | succ n ih =>
    obtain ⟨rest, hrest, hbody⟩ := ih (by omega)
    cases hnext : rest.next? with
    | none =>
      rw [(Yields.next?_eq_none_iff rest).mp hnext, eq_comm, List.drop_eq_nil_iff] at hrest
      omega
    | some next =>
      obtain ⟨value, pending⟩ := next
      refine ⟨pending, ?_, resumptions_succ hbody (Tree.resume_body_of_next? hnext)⟩
      rw [← List.tail_drop, ← hrest, Yields.toList_eq_of_next? hnext, List.tail_cons]

/-- What such a body answers next. -/
theorem resume_start (yields : Yields) (failure : Option Int32) {n : Nat}
    (h : n ≤ yields.toList.length) : ∃ body after,
      (start yields failure).resumptions n = .ok body ∧
        body.resume = .ok (resumptionAt yields.toList failure n, after) := by
  obtain ⟨rest, hrest, hbody⟩ := resumptions_start failure h
  rw [resumptionAt, ← List.head?_drop, ← hrest]
  cases hnext : rest.next? with
  | some next =>
    rw [Yields.toList_eq_of_next? hnext]
    exact ⟨_, _, hbody, Tree.resume_body_of_next? hnext⟩
  | none =>
    rw [(Yields.next?_eq_none_iff rest).mp hnext]
    exact ⟨_, _, hbody, Tree.resume_body_of_none failure hnext⟩

end Coroutine

/-! ### Calls of a generator -/

namespace Generator

/-- A generator over a fresh body that was called some times.  The calls have resumed the body,
until it returned. -/
structure Called (yields : Yields) (failure : Option Int32) (calls : Nat) (generator : Generator) :
    Prop where
  body : (Coroutine.start yields failure).resumptions (min calls (yields.toList.length + 1)) =
    .ok generator.body
  finished : generator.finished =
    if yields.toList.length < calls then some (Tree.returned failure) else none

variable {yields : Yields} {failure : Option Int32} {calls : Nat} {generator : Generator}

theorem called_start (yields : Yields) (failure : Option Int32) :
    Called yields failure 0 (start yields failure) :=
  ⟨by rw [Nat.zero_min]; rfl, rfl⟩

/-- **One call of a generator.** -/
theorem Called.resume (h : Called yields failure calls generator) :
    ∃ after, generator.resume = .ok (resumptionAt yields.toList failure calls, after) ∧
      Called yields failure (calls + 1) after := by
  by_cases hover : yields.toList.length < calls
  · -- the outcome is kept, and the body is left alone
    have hfinished : generator.finished = some (Tree.returned failure) := by
      rw [h.finished, if_pos hover]
    have hbody := h.body
    rw [Nat.min_eq_right (by omega)] at hbody
    refine ⟨generator, ?_, ⟨?_, ?_⟩⟩
    · rw [resumptionAt, List.getElem?_eq_none (by omega)]
      exact resume_of_finished hfinished
    · rw [Nat.min_eq_right (by omega)]
      exact hbody
    · rw [hfinished, if_pos (by omega)]
  · have hfinished : generator.finished = none := by rw [h.finished, if_neg hover]
    obtain ⟨body, next, hstart, hresume⟩ :=
      Coroutine.resume_start yields failure (Nat.not_lt.mp hover)
    have hbody : body = generator.body := by
      have hcalled := h.body
      rw [Nat.min_eq_left (by omega), hstart] at hcalled
      exact Except.ok.inj hcalled
    refine ⟨_, Tree.resume_of_body hfinished (hbody ▸ hresume), ⟨?_, ?_⟩⟩
    · rw [Nat.min_eq_left (by omega)]
      exact Coroutine.resumptions_succ hstart hresume
    · simp only [isFinal_resumptionAt, decide_eq_true_eq, Nat.lt_succ_iff]
      split
      · next hlast => rw [resumptionAt, List.getElem?_eq_none hlast]
      · rfl

end Generator

/-! ### Ways to call a generator -/

/-- A way to call a generator. -/
inductive Entrance
  /-- Call the routine. -/
  | routine
  /-- Call a function pointer of a unit that advances an iterator. -/
  | pointer (unit : Compiled) (code : Code)

namespace Entrance

/-- One call of what is at an address. -/
def step (address : UInt64) : Entrance → Store → Except Fault Step
  | routine, store => store.generatorNext address
  | pointer unit code, store => unit.next code address store

/-- **The ways that resume a generator**: the routine, the step of a generator kind in a finished
unit that calls the routine under some name, and a pointer to the routine itself. -/
inductive Resumes : Entrance → Prop
  | routine : Resumes .routine
  | lowered {unit : Compiled} {options : Options} {externals : List (String × Provider)}
      {requests : List Request} {name resume : String} {yields : ValueType} {code : Code}
      (finished : unit.Finished options externals requests)
      (entry : unit.entryCode ⟨.iternext, .generator name yields resume⟩ = .ok code)
      (linked : unit.callCode? resume = some (.provided (.intrinsic .generatorResume))) :
      Resumes (.pointer unit code)
  | bound (unit : Compiled) : Resumes (.pointer unit (.provided (.intrinsic .generatorResume)))

end Entrance

/-- Call what is at an address in some ways in turn. -/
def resumeAll (address : UInt64) : List Entrance → Store → Except Fault (List Step × Store)
  | [], store => .ok ([], store)
  | entrance :: rest, store =>
    match entrance.step address store with
    | .error fault => .error fault
    | .ok step =>
      (resumeAll address rest step.store).map fun (steps, last) => (step :: steps, last)

/-- A name that no lowered body takes over is the routine that it is linked to. -/
theorem Compiled.provided_of_callCode? {unit : Compiled} {symbol : String} {provider : Provider}
    (h : unit.callCode? symbol = some (.provided provider)) :
    (∀ lowered ∈ unit.registry.lowered, lowered.1.symbolName ≠ symbol) ∧
      unit.decls.provider? symbol = some provider := by
  unfold callCode? at h
  split at h
  · cases h
  · next hnone =>
    obtain ⟨found, hfound, heq⟩ := Option.map_eq_some_iff.mp h
    cases heq
    refine ⟨fun lowered hm heq => ?_, hfound⟩
    simpa [heq] using List.find?_eq_none.mp hnone lowered hm

namespace Entrance

variable {store : Store} {address : UInt64} {generator after : Generator} {outcome : Resumption}

/-- **Every way to call a generator resumes it**, and answers what the body answers. -/
theorem step_of_resume {entrance : Entrance} (he : entrance.Resumes)
    (cell : store.get? address = some (.generator generator))
    (h : generator.resume = .ok (outcome, after)) :
    ∃ step, entrance.step address store = .ok step ∧ step.status = outcome.status ∧
      step.writes = Store.resumptionWrites outcome ∧
      step.store.get? address = some (.generator after) := by
  have hnext := Store.generatorNext_of_resume cell h
  have hcell : (store.set address (.generator after)).get? address = some (.generator after) :=
    Store.get?_set_self cell
  have hlinked := Tree.linkedNext_of_next (.intrinsic .generatorResume) hnext
  cases he with
  | routine => exact ⟨_, hnext, rfl, rfl, hcell⟩
  | bound unit => exact ⟨_, hlinked, rfl, rfl, hcell⟩
  | @lowered unit options externals requests name resume yields code finished entry linked =>
    obtain ⟨hfree, hprovider⟩ := Compiled.provided_of_callCode? linked
    have hcalls : unit.CallsLinked (.generator name yields resume) := by
      intro symbol hs
      rw [List.mem_singleton.mp hs]
      exact hfree
    have hstep : (pointer unit code).step address store =
        (Provider.intrinsic .generatorResume).linkedNext address store := by
      rw [step, Compiled.next_eq hcalls (finished.provides entry), Exec.next_generator]
      simp only [Compiled.provided, hprovider]
    exact ⟨_, hstep.trans hlinked, rfl, rfl, hcell⟩

end Entrance

/-! ### The protocol -/

/-- The last status word of a body, and of every call behind it.  A failure must not be taken for a
value or for the end of the values. -/
def lastStatus : Option Int32 → Status
  | none => -3
  | some code => if code = 0 ∨ code = -3 then -1 else code

/-- What a call tells, by the number of calls before it: status word zero and the value that is
next, or the last status word and nothing. -/
def answerAt (values : List Int64) (failure : Option Int32) (calls : Nat) : Status × List Write :=
  match values[calls]? with
  | some value => (0, [.word value])
  | none => (lastStatus failure, [])

theorem answer_of_resumptionAt (values : List Int64) (failure : Option Int32) (calls : Nat) :
    ((resumptionAt values failure calls).status,
      Store.resumptionWrites (resumptionAt values failure calls)) =
        answerAt values failure calls := by
  rw [resumptionAt, answerAt]
  cases values[calls]? with
  | some value => rfl
  | none =>
    cases failure with
    | none => rfl
    | some code =>
      have hreserved : (decide (code = Status.ok) || decide (code = Status.stop)) = true ↔
          code = 0 ∨ code = -3 := by
        rw [Bool.or_eq_true, decide_eq_true_iff, decide_eq_true_iff]
        rfl
      simp only [Tree.returned, Store.resumptionWrites, Resumption.status, lastStatus, hreserved]
      rfl

variable {yields : Yields} {failure : Option Int32} {address : UInt64}

/-- Calls of a generator that was called some times before. -/
theorem resumeAll_of_called {entrances : List Entrance} :
    ∀ {calls : Nat} {store : Store} {generator : Generator},
      (∀ entrance ∈ entrances, entrance.Resumes) →
      store.get? address = some (.generator generator) →
      generator.Called yields failure calls →
      ∃ steps last after, resumeAll address entrances store = .ok (steps, last) ∧
        steps.map (fun step => (step.status, step.writes)) =
          (List.range' calls entrances.length).map (answerAt yields.toList failure) ∧
        last.get? address = some (.generator after) ∧
        after.Called yields failure (calls + entrances.length) := by
  induction entrances with
  | nil => exact fun _ cell h => ⟨[], _, _, rfl, rfl, cell, h⟩
  | cons entrance rest ih =>
    intro calls store generator hall cell h
    obtain ⟨next, hresume, hnext⟩ := h.resume
    obtain ⟨step, hstep, hstatus, hwrites, hcell⟩ :=
      Entrance.step_of_resume (hall _ (List.mem_cons_self ..)) cell hresume
    obtain ⟨steps, last, after, hrest, hanswers, hlast, hafter⟩ :=
      ih (fun other hm => hall other (List.mem_cons_of_mem _ hm)) hcell hnext
    refine ⟨step :: steps, last, after, ?_, ?_, hlast, ?_⟩
    · simp only [resumeAll, hstep, hrest]
      rfl
    · rw [List.length_cons, List.range'_succ, List.map_cons, List.map_cons, hanswers, hstatus,
        hwrites, answer_of_resumptionAt]
    · rw [List.length_cons, Nat.add_comm rest.length, ← Nat.add_assoc]
      exact hafter

/-- **The protocol of resumptions.**  Calls of a generator over a fresh body, in whatever ways, all
answer: the values of the body in order with status word zero, and then nothing but one last status
word.  The generator has ended exactly from the call behind the last value on, and its body was
resumed once in every call up to that one, and in no later call. -/
theorem resumeAll_eq_answers {store : Store} (yields : Yields) (failure : Option Int32)
    (cell : store.get? address = some (.generator (.start yields failure)))
    (entrances : List Entrance) (hall : ∀ entrance ∈ entrances, entrance.Resumes) :
    ∃ steps last generator, resumeAll address entrances store = .ok (steps, last) ∧
      steps.map (fun step => (step.status, step.writes)) =
        (List.range entrances.length).map (answerAt yields.toList failure) ∧
      last.get? address = some (.generator generator) ∧
      (generator.isFinished = true ↔ yields.toList.length < entrances.length) ∧
      ∀ n, (Coroutine.start yields failure).resumptions n = .ok generator.body ↔
        n = min entrances.length (yields.toList.length + 1) := by
  obtain ⟨steps, last, generator, hrun, hanswers, hlast, hcalled⟩ :=
    resumeAll_of_called hall cell (Generator.called_start yields failure)
  rw [Nat.zero_add] at hcalled
  refine ⟨steps, last, generator, hrun, ?_, hlast, ?_, Coroutine.resumptions_eq_iff hcalled.body⟩
  · rw [hanswers, List.range_eq_range']
  · rw [Generator.isFinished, hcalled.finished]
    split <;> simp_all

/-- A body that yields one value and fails with the word that means a value, called by the compiled
step of its kind and by the routine in turns.  The failure is never taken for a value. -/
theorem resumeAll_eq_answers_reserved :
    ∃ (unit : Compiled) (code : Code) (address : UInt64) (store last : Store) (steps : List Step)
      (generator : Generator),
      unit.Finished .debug [] [.iterator (.coroutine "g")] ∧
      unit.entryCode ⟨.iternext, .coroutine "g"⟩ = .ok code ∧
      store.get? address = some (.generator (.start (.given [7]) (some 0))) ∧
      resumeAll address [.pointer unit code, .routine, .pointer unit code] store =
        .ok (steps, last) ∧
      steps.map (fun step => (step.status, step.writes)) =
        [(0, [.word 7]), (-1, []), (-1, [])] ∧
      last.get? address = some (.generator generator) ∧ generator.isFinished = true ∧
      (Coroutine.start (.given [7]) (some 0)).resumptions 2 = .ok generator.body := by
  obtain ⟨unit, finished, code, entry, linked⟩ : ∃ unit : Compiled,
      unit.Finished .debug [] [.iterator (.coroutine "g")] ∧ ∃ code,
      unit.entryCode ⟨.iternext, .coroutine "g"⟩ = .ok code ∧
      unit.callCode? Intrinsic.generatorResume.name =
        some (.provided (.intrinsic .generatorResume)) := ⟨_, rfl, _, rfl, rfl⟩
  obtain ⟨address, store, cell⟩ : ∃ (address : UInt64) (store : Store),
      store.get? address = some (.generator (.start (.given [7]) (some 0))) :=
    ⟨0, ⟨[(0, .generator (.start (.given [7]) (some 0)))], 1, .zero, 0, [], []⟩, rfl⟩
  have hpointer : (Entrance.pointer unit code).Resumes := .lowered finished entry linked
  obtain ⟨steps, last, generator, hrun, hanswers, hlast, hfinished, hbody⟩ :=
    resumeAll_eq_answers (.given [7]) (some 0) cell
      [.pointer unit code, .routine, .pointer unit code]
      (by simp [hpointer, Entrance.Resumes.routine])
  exact ⟨unit, code, address, store, last, steps, generator, finished, entry, cell, hrun, hanswers,
    hlast, hfinished.mpr (show 1 < 3 by decide), (hbody 2).mpr rfl⟩

end PullIter
