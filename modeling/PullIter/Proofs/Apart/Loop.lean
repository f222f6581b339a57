import PullIter.Proofs.Host.Buffers
import PullIter.Proofs.Shared.Deed

/-!
# Loops in lockstep

If the steps of an iterator in one store are those of an iterator in another, then so are loops and
drains.  The number of rounds that a store allows does not matter, as long as the other iterator
has no more values left than that.

## Main definitions

* `Mirrors` — the steps of an iterator are those of another one.
* `Handle.taken` — what a handle makes of a step.

## Main results

* `Mirrors.rounds`, `Mirrors.drainWithin` — **a loop and a drain** are mirrored.
-/

namespace PullIter

open Linkage (runtime)

/-- Whatever steps an iterator makes, in related stores another iterator makes the same, and has
less left whenever there is a value. -/
structure Mirrors (kind : Kind) (iterator iterator' : UInt64) (related : Store → Store → Prop)
    (left : Store → Nat) : Prop where
  next : ∀ {store other step}, related store other →
    Exec.next runtime kind iterator store = .ok step →
    ∃ step', Exec.next runtime kind iterator' other = .ok step' ∧ step'.status = step.status ∧
      step'.writes = step.writes ∧ related step.store step'.store ∧
      (step.status = Status.ok → left step'.store < left other)

variable {kind : Kind} {iterator iterator' : UInt64} {related : Store → Store → Prop}
  {left : Store → Nat}

/-- **A loop** is mirrored. -/
theorem Mirrors.rounds {σ : Type} (h : Mirrors kind iterator iterator' related left)
    (sink : Exec.Sink σ) (fuel : Nat) : ∀ {fuel' : Nat} {buffer : List UInt8} {seen after : σ}
    {store other last : Store} {status : Status}, related store other → left other < fuel' →
    Exec.rounds runtime kind sink iterator fuel buffer seen store = .ok (status, after, last) →
    ∃ last', Exec.rounds runtime kind sink iterator' fuel' buffer seen other =
      .ok (status, after, last') ∧ related last last' := by
  induction fuel with
  | zero => intro _ _ _ _ _ _ _ _ _ _ hr; cases hr
  | succ fuel ih =>
    intro fuel' buffer seen after store other last status hrel hleft hr
    obtain ⟨fuel', rfl⟩ : ∃ n, fuel' = n + 1 := ⟨fuel' - 1, by omega⟩
    rw [Exec.rounds] at hr ⊢
    cases hn : Exec.next runtime kind iterator store with
    | error fault => rw [hn] at hr; cases hr
    | ok step =>
      obtain ⟨step', hn', hstatus, hwrites, hrel', hless⟩ := h.next hrel hn
      rw [hn] at hr
      simp only [hn', hstatus, hwrites] at hr ⊢
      split
      · next hok =>
        rw [if_pos hok] at hr
        cases hsink : sink (applyWrites buffer step.writes) seen with
        | error fault => rw [hsink] at hr; cases hr
        | ok answer =>
          obtain ⟨answer, recorded⟩ := answer
          rw [hsink] at hr
          simp only at hr ⊢
          split
          · next hgo =>
            rw [if_pos hgo] at hr
            -- a round with a value leaves less, so the other loop has fuel for the rest
            have hlt := hless hok
            have hfuel : left step'.store < fuel' := by omega
            exact ih hrel' hfuel hr
          · next hend =>
            rw [if_neg hend] at hr
            cases hr
            exact ⟨_, rfl, hrel'⟩
      · next hok =>
        rw [if_neg hok] at hr
        split
        · next hstop =>
          rw [if_pos hstop] at hr
          cases hr
          exact ⟨_, rfl, hrel'⟩
        · next hstop =>
          rw [if_neg hstop] at hr
          cases hr
          exact ⟨_, rfl, hrel'⟩

/-! ### Handles -/

namespace Handle

/-- What a handle makes of the answer of a step. -/
def taken (handle : Handle) (status : Status) (writes : List Write) :
    Except Fault (Outcome × Handle) :=
  let handle := { handle with buffer := applyWrites handle.buffer writes }
  match status.classify with
  | .stop => .ok (.exhausted, handle)
  | .failure code => .ok (.failure code, handle)
  | .ok =>
    match handle.layout.read handle.buffer with
    | .error fault => .error fault
    | .ok none => .error (.outOfBounds 0 handle.layout.size)
    | .ok (some value) => .ok (.valid value, handle)

variable {unit : Compiled} {handle after : Handle} {store : Store}

/-- A step of a handle is one of its iterator. -/
theorem step_of_next {step : Step}
    (h : unit.next handle.next handle.iterator store = .ok step) : handle.step unit store =
      (handle.taken step.status step.writes).map fun (outcome, after) =>
        (outcome, after, step.store) := by
  rw [Handle.step, h, taken]
  simp only
  cases step.status.classify with
  | stop => rfl
  | failure code => rfl
  | ok =>
    simp only
    cases handle.layout.read (applyWrites handle.buffer step.writes) with
    | error fault => rfl
    | ok found => cases found <;> rfl

/-- There is a value only if the step has one. -/
theorem status_of_taken {status : Status} {writes : List Write} {value : Value}
    (h : handle.taken status writes = .ok (.valid value, after)) : status = Status.ok := by
  rw [taken] at h
  simp only at h
  split at h
  · cases h
  · cases h
  · next hclass => exact Status.eq_ok_of_classify hclass

end Handle

/-- Steps of the handle are mirrored. -/
theorem Mirrors.step {unit : Compiled} {handle after : Handle} {store other last : Store}
    {outcome : Outcome} (h : Mirrors kind handle.iterator handle.iterator related left)
    (hd : handle.Drives unit kind)
    (hagree : ∀ iterator store, Exec.next unit.provided kind iterator store =
      Exec.next runtime kind iterator store)
    (hrel : related store other) (hs : handle.step unit store = .ok (outcome, after, last)) :
    ∃ last', handle.step unit other = .ok (outcome, after, last') ∧ related last last' ∧
      ((∃ value, outcome = .valid value) → left last' < left other) := by
  cases hn : unit.next handle.next handle.iterator store with
  | error fault => rw [Handle.step, hn] at hs; cases hs
  | ok step =>
    rw [Handle.step_of_next hn] at hs
    rw [hd.next, hagree] at hn
    obtain ⟨step', hn', hstatus, hwrites, hrel', hless⟩ := h.next hrel hn
    rw [← hagree, ← hd.next] at hn'
    cases htaken : handle.taken step.status step.writes with
    | error fault => rw [htaken] at hs; cases hs
    | ok found =>
      rw [htaken] at hs
      cases hs
      refine ⟨step'.store, ?_, hrel', ?_⟩
      · rw [Handle.step_of_next hn', hstatus, hwrites, htaken]
        rfl
      · rintro ⟨value, hvalue⟩
        obtain ⟨outcome, after⟩ := found
        cases hvalue
        exact hless (Handle.status_of_taken htaken)

/-- **A drain** is mirrored. -/
theorem Mirrors.drainWithin {unit : Compiled}
    (h : Mirrors kind iterator iterator related left)
    (hagree : ∀ iterator store, Exec.next unit.provided kind iterator store =
      Exec.next runtime kind iterator store) (fuel : Nat) :
    ∀ {fuel' : Nat} {handle after : Handle} {store other last : Store}
      {result : List Value × LoopExit}, handle.Drives unit kind → handle.iterator = iterator →
      related store other → left other < fuel' →
      handle.drainWithin unit fuel store = .ok (result, after, last) →
      ∃ last', handle.drainWithin unit fuel' other = .ok (result, after, last') ∧
        related last last' := by
  induction fuel with
  | zero => intro _ _ _ _ _ _ _ _ _ _ _ hr; cases hr
  | succ fuel ih =>
    intro fuel' handle after store other last result hd hi hrel hleft hr
    obtain ⟨fuel', rfl⟩ : ∃ n, fuel' = n + 1 := ⟨fuel' - 1, by omega⟩
    subst hi
    rw [Handle.drainWithin] at hr ⊢
    cases hs : handle.step unit store with
    | error fault => rw [hs] at hr; cases hr
    | ok found =>
      obtain ⟨outcome, next, middle⟩ := found
      obtain ⟨middle', hs', hrel', hless⟩ := h.step hd hagree hrel hs
      rw [hs] at hr
      rw [hs']
      cases outcome with
      | valid value =>
        simp only at hr ⊢
        obtain ⟨⟨⟨values, ending⟩, rest⟩, hrest, heq⟩ := Except.exists_of_map_eq_ok hr
        cases heq
        obtain ⟨hnext, hsame⟩ := hd.of_step hs
        have hlt := hless ⟨value, rfl⟩
        have hfuel : left middle' < fuel' := by omega
        obtain ⟨last', hlast', hrel''⟩ := ih hnext hsame hrel' hfuel hrest
        exact ⟨last', by rw [hlast']; rfl, hrel''⟩
      | exhausted => cases hr; exact ⟨middle', rfl, hrel'⟩
      | failure code => cases hr; exact ⟨middle', rfl, hrel'⟩

end PullIter
