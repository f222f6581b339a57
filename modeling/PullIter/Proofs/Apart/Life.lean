import PullIter.Proofs.Apart.Bound
import PullIter.Proofs.Apart.Loop
import PullIter.Proofs.Apart.Step

/-!
# Iterators in another store

An iterator over an array that is made in one store is at another address than one that is made in
another store, and otherwise they are the same.  So are the steps that they make, until they end.

## Main definitions

* `Store.HasRoom` — there is storage for another iterator over an array.

## Main results

* `Store.arrayGetiter_of_room`, `Store.arrayGetiter_of_full` — an iterator over an array is made.
* `Exec.mirrors_of_agree` — **the steps of an iterator** are made in any store that agrees.
* `Exec.mirrors_of_fresh` — iterators that were made over one array make the same steps.
-/

namespace PullIter

open Linkage (runtime)
open Store (Made)

/-! ### Making and ending -/

namespace Store

variable {store after : Store} {array address : UInt64}

/-- There is storage for another iterator over an array. -/
def HasRoom (store : Store) : Prop := iterEnd store.unused < UInt64.size

theorem HasRoom.of_le {other : Store} (h : store.HasRoom) (hle : other.unused ≤ store.unused) :
    other.HasRoom := by
  unfold HasRoom iterEnd at *
  omega

/-- **An iterator over an array is made**, if there is storage for it. -/
theorem arrayGetiter_of_room (h : store.HasRoom) (array : UInt64) :
    ∃ made, store.arrayGetiter array = .ok (store.iterAddress, made) ∧
      Moves [store.iterAddress] .make store made ∧
      ∃ mid, Made store store.iterAddress (.block ⟨16, 8⟩ [array, 0]) mid ∧
        made = mid.count .arrayIter 1 := by
  obtain ⟨mid, halloc, hunused, hcounters, hcopies, hevents⟩ : ∃ mid,
      store.alloc ⟨16, 8⟩ (.block ⟨16, 8⟩ [array, 0]) = .ok (store.iterAddress, mid) ∧
      mid.unused = iterEnd store.unused ∧ mid.counters = store.counters ∧
      mid.copies = store.copies ∧ mid.events = store.events := ⟨_, if_pos h, rfl, rfl, rfl, rfl⟩
  have hmade := alloc_spec (by decide) (by decide) halloc
  refine ⟨mid.count .arrayIter 1, by rw [arrayGetiter, halloc]; rfl,
    ⟨fun other ho => ?_, hunused, congrArg (·.bump .arrayIter 1) hcounters, hcopies, hevents⟩,
    mid, hmade, rfl⟩
  have hne : other ≠ store.iterAddress := fun heq => ho (List.mem_singleton.mpr heq)
  exact (hmade.other hne).trans ((Moves.refl [store.iterAddress] store).others other ho)

theorem arrayGetiter_of_full (h : ¬store.HasRoom) (array : UInt64) :
    store.arrayGetiter array = .error .outOfMemory := by
  have halloc : store.alloc ⟨16, 8⟩ (.block ⟨16, 8⟩ [array, 0]) = .error .outOfMemory := if_neg h
  rw [arrayGetiter, halloc]
  rfl

/-- An iterator over an array ends. -/
theorem arrayRelease_of_get? {cell : Cell} (h : store.get? address = some cell)
    (hne : address ≠ 0) : store.arrayRelease address =
      .ok ((store.erase address).count .arrayIter (-1)) := by
  rw [arrayRelease, if_neg hne, reclaim, h]
  rfl

end Store

namespace Exec

variable {cast : Cast} {own : List UInt64} {kind : Kind} {role : Role} {iterator : UInt64}
  {store other : Store}

open Compiled (lookup_ofIntrinsics)

/-- A value that is no array is its own iterator. -/
theorem getiter_of_ne (hk : kind.role? = some role) (hne : kind ≠ .array) (value : UInt64)
    (store : Store) : getiter runtime kind value store = .ok (value, store) := by
  cases Kind.roleCases hk with
  | array => exact absurd rfl hne
  | iterator => rfl
  | range => rfl
  | coroutine name => rfl
  | enumerate => rfl
  | zip => rfl

theorem getiter_array (value : UInt64) (store : Store) : getiter runtime .array value store =
    (store.arrayGetiter value).map fun made =>
      (made.1, made.2.called (.getiter (.intrinsic .arrayGetiter) value made.1)) := by
  have hsymbol : Kind.array.getiterSymbol? = some Intrinsic.arrayGetiter.name := rfl
  rw [getiter, hsymbol]
  simp only [runtime, lookup_ofIntrinsics, Provider.linkedGetiter, Provider.getiter]

/-- Nothing was made of a value that is no array. -/
theorem releaseMade_of_ne (hk : kind.role? = some role) (hne : kind ≠ .array) (iterator : UInt64)
    (store : Store) : releaseMade runtime kind iterator store = .ok store := by
  cases Kind.roleCases hk with
  | array => exact absurd rfl hne
  | iterator => rfl
  | range => rfl
  | coroutine name => rfl
  | enumerate => rfl
  | zip => rfl

theorem releaseMade_array (iterator : UInt64) (store : Store) :
    releaseMade runtime .array iterator store =
      (store.arrayRelease iterator).map fun released =>
        released.called (.release (.intrinsic .arrayRelease) iterator) := by
  rw [Kind.array, releaseMade]
  simp only [runtime, lookup_ofIntrinsics, Provider.linkedRelease, Provider.release]

/-! ### Lockstep -/

/-- Two stores in which an iterator makes the same steps, where the same was done to both so far. -/
structure Twins (cast : Cast) (own : List UInt64) (role : Role) (iterator : UInt64)
    (first first' store other : Store) : Prop where
  staged : Staged cast store
  staged' : Staged cast other
  reach : store.reach role iterator ⊆ own
  agree : Agree cast own store other
  paired : Paired cast own own first first' store other

/-- **The steps of an iterator** are made in any store that agrees on what it reaches. -/
theorem mirrors_of_agree (hk : kind.role? = some role) (hm : (iterator, role) ∈ cast)
    (first first' : Store) : Mirrors kind iterator iterator
      (Twins cast own role iterator first first') fun store => store.left role iterator := by
  refine ⟨fun {store other step} h hn => ?_⟩
  obtain ⟨step', hn', he⟩ := echoes_next role h.staged h.agree hk hm h.reach hn
  have hlater := later_next role h.staged hk hm hn
  have hlater' := later_next role h.staged' hk hm hn'
  refine ⟨step', hn', he.status, he.writes, ⟨h.staged.later hlater, h.staged'.later hlater',
    List.Subset.trans (Store.reach_later role h.staged hlater hm) h.reach, he.agree,
    h.paired.trans he.paired⟩, fun hok => ?_⟩
  exact left_next role h.staged' hk hm hn' (he.status.trans hok)

/-- Two stores with iterators over one array that are at the same element. -/
structure Abreast (cast more more' : Cast) (array iterator iterator' : UInt64)
    (first first' store other : Store) : Prop where
  staged : Staged more store
  staged' : Staged more' other
  record : ∃ block words, store.get? iterator = some (.block block words) ∧
    other.get? iterator' = some (.block block words) ∧ words.peek 0 = array
  elements : ∀ {elements calls}, store.get? array = some (.array elements calls) →
    ∃ calls', other.get? array = some (.array elements calls')
  paired : Paired cast [iterator] [iterator'] first first' store other

/-- **Iterators that were made over one array** make the same steps. -/
theorem mirrors_of_fresh {more more' : Cast} {array iterator' : UInt64}
    (ha : (array, .array) ∈ cast) (hm : (iterator, .elements) ∈ more)
    (hm' : (iterator', .elements) ∈ more') (first first' : Store) :
    Mirrors .array iterator iterator'
      (Abreast cast more more' array iterator iterator' first first')
      fun store => store.left .elements iterator' := by
  refine ⟨fun {store other step} h hn => ?_⟩
  obtain ⟨block, words, hcell, hcell', rfl⟩ := h.record
  obtain ⟨_, _, elements, calls, hsame, -, helements, -⟩ :=
    exists_record_of_next h.staged rfl hm hn
  rw [hcell] at hsame
  cases hsame
  obtain ⟨calls', helements'⟩ := h.elements helements
  obtain ⟨found, hfound, hstatus, hwrites, hafter, hcounted, hmoves⟩ :=
    @next_elements_of_get? store iterator .array rfl _ _ _ _ hcell helements
  rw [hn] at hfound
  cases hfound
  obtain ⟨step', hn', hstatus', hwrites', hafter', hcounted', hmoves'⟩ :=
    @next_elements_of_get? other iterator' .array rfl _ _ _ _ hcell' helements'
  -- both iterators have the same index and find the same elements, so they answer alike
  refine ⟨step', hn', hstatus'.trans hstatus.symm, hwrites'.trans hwrites.symm, ?_, fun hok => ?_⟩
  · exact {
      staged := h.staged.later (later_next .elements h.staged rfl hm hn)
      staged' := h.staged'.later (later_next .elements h.staged' rfl hm' hn')
      record := ⟨block, _, hafter, hafter', Store.peek_arrayAnswer elements words⟩
      elements := fun {_ _} hcounter => by
        rw [hcounted] at hcounter
        cases hcounter
        exact ⟨calls' + 1, hcounted'⟩
      paired := h.paired.trans ⟨.call (words.peek 0), .call ha, rfl, rfl, hmoves, hmoves'⟩ }
  · exact left_next .elements h.staged' rfl hm' hn' (hstatus'.trans (hstatus.symm.trans hok))

end Exec

end PullIter
