import PullIter.Proofs.Store.Frame

/-!
# What a routine did that returned

A routine looks up the object it is called for, works on it and answers.  A routine that returned
found what it needs, and what it did to the store is determined by what it found.

## Main results

* `Store.arrayNext_cases`, `Store.rangeNext_eq_ok`, `Store.generatorNext_eq_ok` — what a step did.
* `Store.arrayRelease_eq_ok`, `Store.rangeRelease_eq_ok`, `Store.freeBlock_eq_ok` — what ending an
  object did.
-/

namespace PullIter

/-- What is made of an answer is made of one. -/
theorem Except.exists_of_map_eq_ok {ε α β : Type} {result : Except ε α} {f : α → β} {b : β}
    (h : result.map f = .ok b) : ∃ a, result = .ok a ∧ b = f a := by
  cases result with
  | error e => cases h
  | ok a => cases h; exact ⟨a, rfl, rfl⟩

namespace Store

variable {store after : Store} {address : UInt64} {step : Step}

theorem blockAt_eq_ok {block : Block} {words : Words} (h : store.blockAt address = .ok (block, words)) :
    store.get? address = some (.block block words) := by
  unfold blockAt at h
  split at h
  · next hg => cases h; exact hg
  · cases h

theorem reclaim_eq_ok (h : store.reclaim address = .ok after) : after = store.erase address := by
  unfold reclaim at h
  split at h
  · cases h; rfl
  · cases h

/-! ### Steps -/

/-- **An iterator over an array** that was advanced had its array count it, and its index moved on if
there was an element.  Or there was a block of zeros in the place of the array. -/
theorem arrayNext_cases (h : store.arrayNext address = .ok step) : ∃ block words,
    store.get? address = some (.block block words) ∧
    ((∃ elements calls, store.get? (words.peek 0) = some (.array elements calls) ∧
      ((∃ value, elements[(words.peek 1).toNat]? = some value ∧
          step = ⟨Status.ok, [.word value],
            (store.set (words.peek 0) (.array elements (calls + 1))).set address
              (.block block (words.poke 1 (words.peek 1 + 1)))⟩) ∨
        elements[(words.peek 1).toNat]? = none ∧
          step = ⟨Status.stop, [], store.set (words.peek 0) (.array elements (calls + 1))⟩)) ∨
      (∃ other zeros, store.get? (words.peek 0) = some (.block other zeros)) ∧
        step = ⟨Status.stop, [], store⟩) := by
  unfold arrayNext at h
  split at h
  · cases h
  · next block words hb =>
    refine ⟨block, words, blockAt_eq_ok hb, ?_⟩
    simp only at h
    split at h
    · next elements calls ha =>
      refine .inl ⟨elements, calls, ha, ?_⟩
      split at h
      · next value hv => cases h; exact .inl ⟨value, hv, rfl⟩
      · next hv => cases h; exact .inr ⟨hv, rfl⟩
    · next other zeros hz =>
      split at h
      · cases h; exact .inr ⟨⟨other, zeros, hz⟩, rfl⟩
      · cases h
    · cases h

/-- **A range** that was advanced counted the call, and its number moved on if it was below the
stop. -/
theorem rangeNext_eq_ok (h : store.rangeNext address = .ok step) : ∃ block words words',
      store.get? address = some (.block block words) ∧ words'.peek 1 = words.peek 1 ∧
      step.store = store.set address (.block block words') ∧
      words'.peek rangeCallsIndex = words.peek rangeCallsIndex + 1 ∧
      ((words.peek 0).toInt64 < (words.peek 1).toInt64 ∧ words'.peek 0 = words.peek 0 + 1 ∧
          step.status = Status.ok ∧ step.writes = [.word (words.peek 0).toInt64] ∨
        (words.peek 1).toInt64 ≤ (words.peek 0).toInt64 ∧ words'.peek 0 = words.peek 0 ∧
          step.status = Status.stop ∧ step.writes = []) := by
  unfold rangeNext at h
  split at h
  · cases h
  · next block words hb =>
    have hnumber : (words.poke rangeCallsIndex (words.peek rangeCallsIndex + 1)).peek 0 =
        words.peek 0 := Words.peek_poke_of_ne (by decide) _ _
    have hstop : (words.poke rangeCallsIndex (words.peek rangeCallsIndex + 1)).peek 1 =
        words.peek 1 := Words.peek_poke_of_ne (by decide) _ _
    simp only [hstop] at h
    split at h
    · next hle =>
      cases h
      exact ⟨block, words, _, blockAt_eq_ok hb, hstop, rfl, Words.peek_poke_self .., .inr
        ⟨hle, hnumber, rfl, rfl⟩⟩
    · next hlt =>
      cases h
      refine ⟨block, words, _, blockAt_eq_ok hb, ?_, rfl, ?_, .inl
        ⟨Int64.not_le.mp hlt, Words.peek_poke_self .., rfl, rfl⟩⟩
      · rw [Words.peek_poke_of_ne (by decide), hstop]
      · rw [Words.peek_poke_of_ne (by decide), Words.peek_poke_self]

/-- **A generator** that was advanced was resumed. -/
theorem generatorNext_eq_ok (h : store.generatorNext address = .ok step) :
    ∃ generator outcome generator', store.get? address = some (.generator generator) ∧
      generator.resume = .ok (outcome, generator') ∧
      step = ⟨outcome.status, resumptionWrites outcome,
        store.set address (.generator generator')⟩ := by
  obtain ⟨⟨outcome, last⟩, hresumed, rfl⟩ := Except.exists_of_map_eq_ok h
  unfold resumeGenerator at hresumed
  split at hresumed
  · next generator hg =>
    obtain ⟨⟨found, generator'⟩, hr, heq⟩ := Except.exists_of_map_eq_ok hresumed
    cases heq
    exact ⟨generator, outcome, generator', hg, hr, rfl⟩
  · cases hresumed

/-! ### Ending an object -/

/-- Null is left alone, and any other object is erased and counted. -/
theorem release_eq_ok {kind : AllocKind}
    (h : (if address = 0 then .ok store
      else (store.reclaim address).map fun store => store.count kind (-1)) = .ok after) :
    address = 0 ∧ after = store ∨ after = (store.erase address).count kind (-1) := by
  split at h
  · next hzero => cases h; exact .inl ⟨hzero, rfl⟩
  · obtain ⟨erased, hr, rfl⟩ := Except.exists_of_map_eq_ok h
    rw [reclaim_eq_ok hr]
    exact .inr rfl

theorem arrayRelease_eq_ok (h : store.arrayRelease address = .ok after) :
    address = 0 ∧ after = store ∨ after = (store.erase address).count .arrayIter (-1) :=
  release_eq_ok h

theorem rangeRelease_eq_ok (h : store.rangeRelease address = .ok after) :
    address = 0 ∧ after = store ∨ after = (store.erase address).count .rangeIter (-1) :=
  release_eq_ok h

theorem freeBlock_eq_ok {size align : Int} {tag : Int32}
    (h : store.freeBlock address size align tag = .ok after) :
    address = 0 ∧ after = store ∨ after = (store.erase address).countTag tag (-1) := by
  unfold freeBlock at h
  split at h
  · next hzero => cases h; exact .inl ⟨hzero, rfl⟩
  · split at h
    · cases h
    · obtain ⟨erased, hr, rfl⟩ := Except.exists_of_map_eq_ok h
      rw [reclaim_eq_ok hr]
      exact .inr rfl

end Store

end PullIter
