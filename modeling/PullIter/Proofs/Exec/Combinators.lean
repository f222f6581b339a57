import PullIter.Exec.Body
import PullIter.Proofs.Store.Answers

/-!
# What combinators do

An enumerate moves its count and asks its source.  A zip asks its sources in order, and ends the
round with the first that fails.  Their steps are opened here in two directions: from what the
sources do to what the combinator does, and back from a step that was made to the steps of the
sources.  So is what makes and releases a combinator, from a call that returned to its parts.

## Main results

* `next_enumerate_of_get?`, `exists_of_next_enumerate` — a step of an enumerate.
* `nextRound_nil`, `nextRound_noSlots` — the end of a round.
* `nextRound_of_fault`, `nextRound_of_failure`, `nextRound_eq_map` — a round and its first source.
* `exists_of_nextRound_cons` — what was asked in a round that ended.
* `exists_of_storeSources_cons`, `exists_of_construct_enumerate`, `exists_of_construct_zip` — what was
  done to make a combinator.
* `releaseSources_cons`, `release_enumerate` — what is done to release one.
* `exists_of_releaseSources_cons`, `exists_of_release_enumerate`, `exists_of_release_zip` — what was
  done to release one.
-/

namespace PullIter

namespace Exec

variable {link : Linkage} {kind : Kind} {kinds : List Kind} {state iterator : UInt64}
  {index slot : Nat} {slots : List Nat} {valid : Bool} {store : Store} {step : Step}

/-! ### Enumerates -/

theorem next_enumerate_of_get? {block : Block} {words : Words}
    (h : store.get? state = some (.block block words)) :
    next link (.enumerate kind) state store =
      (next link kind (words.peek Layout.sourceIndex) (store.set state (.block block
        (words.poke Layout.countIndex (words.peek Layout.countIndex + 1))))).map
          (counted (words.peek Layout.countIndex).toInt64 (payloadSlot kind)) := by
  rw [next, Store.blockAt_of_get? h]

/-- **An enumerate that made a step** moved its count, and then its source made one. -/
theorem exists_of_next_enumerate (h : next link (.enumerate kind) state store = .ok step) :
    ∃ block words inner, store.get? state = some (.block block words) ∧
      next link kind (words.peek Layout.sourceIndex) (store.set state (.block block
        (words.poke Layout.countIndex (words.peek Layout.countIndex + 1)))) = .ok inner ∧
      step = counted (words.peek Layout.countIndex).toInt64 (payloadSlot kind) inner := by
  cases hb : store.blockAt state with
  | error fault =>
    rw [next, hb] at h
    cases h
  | ok found =>
    obtain ⟨block, words⟩ := found
    have hcell := Store.blockAt_eq_ok hb
    rw [next_enumerate_of_get? hcell] at h
    obtain ⟨inner, hn, rfl⟩ := Except.exists_of_map_eq_ok h
    exact ⟨block, words, inner, hcell, hn, rfl⟩

/-! ### Rounds -/

/-- The sources behind the first are found one index further on. -/
theorem getElem?_behind {α : Type} {first : α} {rest all : List α}
    (h : ∀ (i : Nat) (a : α), (first :: rest)[i]? = some a → all[index + i]? = some a) :
    ∀ (i : Nat) (a : α), rest[i]? = some a → all[index + 1 + i]? = some a := by
  intro i a hi
  rw [Nat.add_assoc, Nat.add_comm 1 i]
  exact h (i + 1) a hi

theorem nextRound_nil (link : Linkage) (state : UInt64) (index : Nat) (slots : List Nat)
    (valid : Bool) (store : Store) : nextRound link [] state index slots valid store =
      .ok ⟨if valid then Status.ok else Status.stop, [], store⟩ := by
  cases slots <;> rw [nextRound]
  all_goals intro _ _ _ _ hk; cases hk

/-- A round asks no source that has no slot. -/
theorem nextRound_noSlots (link : Linkage) (kinds : List Kind) (state : UInt64) (index : Nat)
    (valid : Bool) (store : Store) : nextRound link kinds state index [] valid store =
      .ok ⟨if valid then Status.ok else Status.stop, [], store⟩ := by
  rw [nextRound]
  intro _ _ _ _ _ hs
  cases hs

theorem nextRound_of_fault (hpeek : store.peek state index = .ok iterator) {fault : Fault}
    (hnext : next link kind iterator store = .error fault) :
    nextRound link (kind :: kinds) state index (slot :: slots) valid store = .error fault := by
  rw [nextRound, hpeek]
  simp only [hnext]

/-- A failure cuts a round short. -/
theorem nextRound_of_failure (hpeek : store.peek state index = .ok iterator)
    (hnext : next link kind iterator store = .ok step) (hfail : step.status.isFailure = true) :
    nextRound link (kind :: kinds) state index (slot :: slots) valid store =
      .ok ⟨step.status, step.writes.map (Write.shift slot), step.store⟩ := by
  rw [nextRound, hpeek]
  simp only [hnext, hfail, if_true]

/-- Behind a source that has not failed a round goes on. -/
theorem nextRound_eq_map (hpeek : store.peek state index = .ok iterator)
    (hnext : next link kind iterator store = .ok step) (hfail : step.status.isFailure = false) :
    nextRound link (kind :: kinds) state index (slot :: slots) valid store =
      (nextRound link kinds state (index + 1) slots (valid && decide (step.status = Status.ok))
        step.store).map fun last =>
          ⟨last.status, step.writes.map (Write.shift slot) ++ last.writes, last.store⟩ := by
  rw [nextRound, hpeek]
  simp only [hnext, hfail, Bool.false_eq_true, if_false]

theorem nextRound_of_not_failure {last : Step} (hpeek : store.peek state index = .ok iterator)
    (hnext : next link kind iterator store = .ok step) (hfail : step.status.isFailure = false)
    (hrest : nextRound link kinds state (index + 1) slots (valid && decide (step.status = Status.ok))
      step.store = .ok last) :
    nextRound link (kind :: kinds) state index (slot :: slots) valid store =
      .ok ⟨last.status, step.writes.map (Write.shift slot) ++ last.writes, last.store⟩ := by
  rw [nextRound_eq_map hpeek hnext hfail, hrest]
  rfl

/-- **A round that ended** asked its first source, and the others unless that one failed. -/
theorem exists_of_nextRound_cons
    (h : nextRound link (kind :: kinds) state index (slot :: slots) valid store = .ok step) :
    ∃ iterator inner, store.peek state index = .ok iterator ∧
      next link kind iterator store = .ok inner ∧
      (inner.status.isFailure = true ∧
          step = ⟨inner.status, inner.writes.map (Write.shift slot), inner.store⟩ ∨
        inner.status.isFailure = false ∧ ∃ last,
          nextRound link kinds state (index + 1) slots (valid && decide (inner.status = Status.ok))
            inner.store = .ok last ∧
          step = ⟨last.status, inner.writes.map (Write.shift slot) ++ last.writes, last.store⟩) := by
  cases hpeek : store.peek state index with
  | error fault =>
    rw [nextRound, hpeek] at h
    cases h
  | ok iterator =>
    cases hnext : next link kind iterator store with
    | error fault =>
      rw [nextRound_of_fault hpeek hnext] at h
      cases h
    | ok inner =>
      refine ⟨iterator, inner, rfl, hnext, ?_⟩
      cases hfail : inner.status.isFailure with
      | true =>
        rw [nextRound_of_failure hpeek hnext hfail] at h
        cases h
        exact .inl ⟨rfl, rfl⟩
      | false =>
        rw [nextRound_eq_map hpeek hnext hfail] at h
        obtain ⟨last, hlast, rfl⟩ := Except.exists_of_map_eq_ok h
        exact .inr ⟨rfl, last, hlast, rfl⟩

/-! ### Making a combinator -/

variable {layout : Layout} {record : List UInt8} {args : List Scalar} {after : Store}

/-- **Sources that were stored** were turned into iterators, the first before the others. -/
theorem exists_of_storeSources_cons
    (h : storeSources link layout record state (kind :: kinds) index store = .ok after) :
    ∃ operand iterator mid stored, loadArg layout index record = .ok operand ∧
      getiter link kind operand store = .ok (iterator, mid) ∧
      mid.poke state index iterator = .ok stored ∧
      storeSources link layout record state kinds (index + 1) stored = .ok after := by
  rw [storeSources] at h
  split at h
  · cases h
  · next operand hload =>
    split at h
    · cases h
    · next iterator mid hget =>
      split at h
      · cases h
      · next stored hpoke => exact ⟨operand, iterator, mid, stored, hload, hget, hpoke, h⟩

/-- Storing a word behind others keeps these, and so does whoever stores more words behind it. -/
theorem peek_of_poked {words words' : Words} {word : UInt64}
    (h : ∀ i < index + 1, words'.peek i = (words.poke index word).peek i) :
    words'.peek index = word ∧ ∀ i < index, words'.peek i = words.peek i := by
  refine ⟨?_, fun i hi => ?_⟩
  · rw [h index (Nat.lt_succ_self index), Words.peek_poke_self]
  · rw [h i (Nat.lt_succ_of_lt hi), Words.peek_poke_of_ne (Nat.ne_of_lt hi)]

/-- **An enumerate that was made** got the iterator of its source before its state. -/
theorem exists_of_construct_enumerate
    (h : construct link (.enumerate kind) args record store = .ok (state, after)) :
    ∃ operand start iterator mid empty counted,
      loadArg (Layout.enumerateArgs targetPointerBytes args) 0 record = .ok operand ∧
      loadStart args record = .ok start ∧ getiter link kind operand store = .ok (iterator, mid) ∧
      link.alloc Entry.enumerateState mid = .ok (state, empty) ∧
      empty.poke state Layout.countIndex start.toUInt64 = .ok counted ∧
      counted.poke state Layout.sourceIndex iterator = .ok after := by
  rw [construct] at h
  split at h
  · cases h
  · cases h
  · next operand start hload hstart =>
    split at h
    · cases h
    · next iterator mid hget =>
      split at h
      · cases h
      · next fresh empty halloc =>
        split at h
        · cases h
        · next counted hcount =>
          obtain ⟨last, hsource, heq⟩ := Except.exists_of_map_eq_ok h
          cases heq
          exact ⟨operand, start, iterator, mid, empty, counted, hload, hstart, hget, halloc, hcount,
            hsource⟩

/-- Both words of an enumerate are stored into a block that has none. -/
theorem eq_of_poke_enumerate {empty counted : Store} {block : Block} {start iterator : UInt64}
    (hcell : empty.get? state = some (.block block []))
    (hcount : empty.poke state Layout.countIndex start = .ok counted)
    (hsource : counted.poke state Layout.sourceIndex iterator = .ok after) :
    counted = empty.set state (.block block (Words.poke [] Layout.countIndex start)) ∧
      after = counted.set state
        (.block block ((Words.poke [] Layout.countIndex start).poke Layout.sourceIndex iterator)) ∧
      counted.get? state = some (.block block (Words.poke [] Layout.countIndex start)) := by
  rw [Store.poke_of_get? hcell] at hcount
  cases hcount
  have hcell' : (empty.set state (.block block (Words.poke [] Layout.countIndex start))).get? state =
      some (.block block (Words.poke [] Layout.countIndex start)) := Store.get?_set_self hcell
  rw [Store.poke_of_get? hcell'] at hsource
  cases hsource
  exact ⟨rfl, rfl, hcell'⟩

/-- **A zip that was made** got its state before the iterators of its sources. -/
theorem exists_of_construct_zip
    (h : construct link (.zip kinds) args record store = .ok (state, after)) :
    ∃ empty, link.alloc (Entry.zipState kinds.length) store = .ok (state, empty) ∧
      storeSources link (Layout.zipArgs targetPointerBytes args) record state kinds 0 empty =
        .ok after := by
  rw [construct] at h
  split at h
  · cases h
  · next fresh empty halloc =>
    obtain ⟨last, hstored, heq⟩ := Except.exists_of_map_eq_ok h
    cases heq
    exact ⟨empty, halloc, hstored⟩

/-! ### Releasing a combinator -/

/-- The iterator of the first source is released before those of the sources behind it. -/
theorem releaseSources_cons (hpeek : store.peek state index = .ok iterator) :
    releaseSources link (kind :: kinds) state index store =
      match releaseMade link kind iterator store with
      | .error fault => .error fault
      | .ok mid => releaseSources link kinds state (index + 1) mid := by
  rw [releaseSources]
  split
  · cases hmade : releaseMade link kind iterator store <;> simp only [hpeek, hmade]
  · next hno => rw [releaseMade_of_not_releasesMade (by simpa using hno)]

/-- The iterator of a source is released before the state of the enumerate. -/
theorem release_enumerate (hpeek : store.peek state Layout.sourceIndex = .ok iterator) :
    release link (.enumerate kind) state store =
      match releaseMade link kind iterator store with
      | .error fault => .error fault
      | .ok mid => link.free Entry.enumerateState state mid := by
  rw [release]
  split
  · cases hmade : releaseMade link kind iterator store <;> simp only [hpeek, hmade]
  · next hno => rw [releaseMade_of_not_releasesMade (by simpa using hno)]

/-- A source that needs no release is not even looked up, and releasing it would do nothing. -/
theorem exists_releaseMade {behind : Store → Except Fault Store}
    (h : (if kind.releasesMade then
        match store.peek state index with
        | .error fault => .error fault
        | .ok iterator =>
          match releaseMade link kind iterator store with
          | .error fault => .error fault
          | .ok store => behind store
      else behind store) = .ok after) :
    ∃ iterator mid, releaseMade link kind iterator store = .ok mid ∧
      (∀ found, store.peek state index = .ok found → releaseMade link kind found store = .ok mid) ∧
      behind mid = .ok after := by
  split at h
  · split at h
    · cases h
    · next iterator hpeek =>
      split at h
      · cases h
      · next mid hmid =>
        refine ⟨iterator, mid, hmid, fun found hfound => ?_, h⟩
        cases hpeek.symm.trans hfound
        exact hmid
  · next hno =>
    have hnone : ∀ found, releaseMade link kind found store = .ok store := fun found =>
      releaseMade_of_not_releasesMade (by simpa using hno) link found store
    exact ⟨0, store, hnone 0, fun found _ => hnone found, h⟩

theorem exists_of_releaseSources_cons
    (h : releaseSources link (kind :: kinds) state index store = .ok after) :
    ∃ iterator mid, releaseMade link kind iterator store = .ok mid ∧
      (∀ found, store.peek state index = .ok found → releaseMade link kind found store = .ok mid) ∧
      releaseSources link kinds state (index + 1) mid = .ok after := by
  rw [releaseSources] at h
  exact exists_releaseMade h

theorem exists_of_release_enumerate (h : release link (.enumerate kind) state store = .ok after) :
    ∃ iterator mid, releaseMade link kind iterator store = .ok mid ∧
      (∀ found, store.peek state Layout.sourceIndex = .ok found →
        releaseMade link kind found store = .ok mid) ∧
      link.free Entry.enumerateState state mid = .ok after := by
  rw [release] at h
  exact exists_releaseMade h

theorem exists_of_release_zip (h : release link (.zip kinds) state store = .ok after) :
    ∃ mid, releaseSources link kinds state 0 store = .ok mid ∧
      link.free (Entry.zipState kinds.length) state mid = .ok after := by
  rw [release] at h
  split at h
  · cases h
  · next mid hmid => exact ⟨mid, hmid, h⟩

end Exec

end PullIter
