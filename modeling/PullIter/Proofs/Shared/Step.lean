import PullIter.Proofs.Shared.Later

/-!
# A step moves the store on

An enumerate moves its count and asks its source.  A zip asks its sources in order, and ends the
round with the first that fails.  Whatever they ask moves on, and nothing else is changed.

## Main results

* `later_next` — **advancing an iterator** moves the store on.
-/

namespace PullIter

namespace Exec

open Linkage (runtime)

variable {cast : Cast}

/-! ### Advancing an iterator -/

/-- What a leaf refers to has the role of a source. -/
theorem mem_cast_enumerate {store : Store} {state : UInt64} {role : Role} (h : Staged cast store)
    (hm : (state, .enumerate role) ∈ cast) (hs : (store.get? state).isSome) :
    (store.word state Layout.sourceIndex, role) ∈ cast := by
  obtain ⟨cell, hc⟩ := Option.isSome_iff_exists.mp hs
  cases h.fits hm hc with
  | enumerate hsource =>
    rw [Store.word_of_get? hc]
    exact hsource

theorem mem_cast_zip {store : Store} {state : UInt64} {roles : List Role} (h : Staged cast store)
    (hm : (state, .zip roles) ∈ cast) (hs : (store.get? state).isSome) {index : Nat} {role : Role}
    (hi : roles[index]? = some role) : (store.word state index, role) ∈ cast := by
  obtain ⟨cell, hc⟩ := Option.isSome_iff_exists.mp hs
  cases h.fits hm hc with
  | zip hsources =>
    rw [Store.word_of_get? hc]
    exact hsources index role hi

/-- Moving the count of an enumerate leaves its source. -/
theorem later_moveCount {store : Store} {state : UInt64} {role : Role} (h : Staged cast store)
    (hm : (state, .enumerate role) ∈ cast) : Later cast store (store.moveCount state) := by
  unfold Store.moveCount
  split
  · next block words hc =>
    exact h.later_set hm hc (.enumerate _ (Words.peek_poke_of_ne (by decide) _ _))
  · exact h.later_refl

/-- The routine of a leaf moves the store on. -/
theorem later_routine {role : Role} {routine : Intrinsic} {iterator : UInt64} {store : Store}
    {step : Step} (h : Staged cast store) (hr : role.routine? = some routine)
    (hm : (iterator, role) ∈ cast)
    (hs : (Provider.intrinsic routine).next iterator store = .ok step) :
    Later cast store step.store := by
  cases role with
  | elements => cases hr; exact Store.later_arrayNext h hm hs
  | range => cases hr; exact Store.later_rangeNext h hm hs
  | generator => cases hr; exact Store.later_generatorNext h hm hs
  | array => cases hr
  | enumerate => cases hr
  | zip => cases hr

/-- Advancing a leaf moves the store on, and then the call is noted. -/
theorem later_leaf {kind : Kind} {role : Role} {routine : Intrinsic} {iterator : UInt64}
    {store : Store} {step : Step} (h : Staged cast store) (hk : kind.role? = some role)
    (hr : role.routine? = some routine) (hm : (iterator, role) ∈ cast)
    (hs : next runtime kind iterator store = .ok step) : Later cast store step.store := by
  rw [next_leaf hk hr] at hs
  obtain ⟨inner, hn, -, -, hstore⟩ := linkedNext_eq_ok hs
  have hinner := later_routine h hr hm hn
  rw [hstore]
  exact hinner.trans ((h.later hinner).later_of_cells_eq rfl rfl)

mutual

/-- **Advancing an iterator** moves the store on. -/
theorem later_next : ∀ (role : Role) {kind : Kind} {iterator : UInt64} {store : Store} {step : Step},
    Staged cast store → kind.role? = some role → (iterator, role) ∈ cast →
    next runtime kind iterator store = .ok step → Later cast store step.store
  | .array, kind, iterator, store, step, h, hk, hm, hs => by cases Kind.roleCases hk
  | .elements, kind, iterator, store, step, h, hk, hm, hs => later_leaf h hk rfl hm hs
  | .range, kind, iterator, store, step, h, hk, hm, hs => later_leaf h hk rfl hm hs
  | .generator, kind, iterator, store, step, h, hk, hm, hs => later_leaf h hk rfl hm hs
  | .enumerate role, kind, state, store, step, h, hk, hm, hs => by
    cases Kind.roleCases hk with
    | enumerate hsource =>
      obtain ⟨block, words, inner, hc, hn, rfl⟩ := next_enumerate_eq_ok hs
      have hmoved := later_moveCount h hm
      have hrole := mem_cast_enumerate h hm (by rw [hc]; rfl)
      have hinner := later_next role (h.later hmoved) hsource hrole hn
      exact hmoved.trans hinner
  | .zip roles, kind, state, store, step, h, hk, hm, hs => by
    cases Kind.roleCases hk with
    | @zip sources _ hsources =>
      cases sources with
      | nil =>
        rw [next_zip_nil] at hs
        cases hs
        exact h.later_refl
      | cons source sources =>
        rw [next_zip_cons] at hs
        exact later_nextRound roles h hsources hm (fun i role hi => by rwa [Nat.zero_add]) hs

/-- So does a round over the sources of a zip from an index on. -/
theorem later_nextRound : ∀ (roles : List Role) {all : List Role} {kinds : List Kind}
    {state : UInt64} {index : Nat} {slots : List Nat} {valid : Bool} {store : Store} {step : Step},
    Staged cast store → Kind.roles? kinds = some roles → (state, .zip all) ∈ cast →
    (∀ (i : Nat) (role : Role), roles[i]? = some role → all[index + i]? = some role) →
    nextRound runtime kinds state index slots valid store = .ok step → Later cast store step.store
  | [], all, kinds, state, index, slots, valid, store, step, h, hk, hm, hall, hs => by
    rw [Kind.roles?_eq_nil hk, nextRound_nil] at hs
    cases hs
    exact h.later_refl
  | role :: roles, all, kinds, state, index, [], valid, store, step, h, hk, hm, hall, hs => by
    rw [nextRound_noSlots] at hs
    cases hs
    exact h.later_refl
  | role :: roles, all, kinds, state, index, slot :: slots, valid, store, step, h, hk, hm, hall,
      hs => by
    obtain ⟨kind, rest, rfl, hrole, hroles⟩ := Kind.roles?_eq_cons hk
    obtain ⟨hsome, inner, hn, hcases⟩ := nextRound_cons_eq_ok hs
    have hsource := mem_cast_zip h hm hsome (hall 0 role rfl)
    have hinner := later_next role h hrole hsource hn
    rcases hcases with ⟨-, rfl⟩ | ⟨-, step', hr, rfl⟩
    · exact hinner
    · have hrest := later_nextRound roles (h.later hinner) hroles hm (getElem?_behind hall) hr
      exact hinner.trans hrest

end

end Exec

end PullIter
