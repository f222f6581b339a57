import PullIter.Proofs.Shared.Step
import PullIter.Proofs.Tree.Held

/-!
# How many values are left

The first leaf that an iterator asks bounds how often it can have a value, whatever else is asked in
between: it has an element, a number or a yield left for every one of them.  No loop over shared
objects has more rounds than that.

## Main definitions

* `Store.left` — the number of values that the first leaf has left.

## Main results

* `Store.left_later` — moving on, there is no more left.
* `Exec.left_next` — **a step with a value** leaves less.
* `Store.left_le_rounds` — there is no more left than the store allows rounds.
-/

namespace PullIter

open Linkage (runtime)

/-! ### Generators -/

namespace Generator

/-- The number of values that a generator can still yield. -/
def left (generator : Generator) : Nat :=
  if generator.finished = none then generator.body.pending.count else 0

/-- A generator that is resumed has a value less, or has ended. -/
theorem left_resume {generator after : Generator} {outcome : Resumption}
    (h : generator.resume = .ok (outcome, after)) :
    after.left ≤ generator.left ∧
      (outcome.isFinal = false → generator.Proper → after.left < generator.left) := by
  unfold resume at h
  cases hf : generator.finished with
  | some known =>
    rw [hf] at h
    cases h
    refine ⟨Nat.le_refl _, fun hvalue hproper => ?_⟩
    rw [hproper _ hf] at hvalue
    cases hvalue
  | none =>
    rw [hf] at h
    simp only at h
    cases hb : generator.body.resume with
    | error fault => rw [hb] at h; cases h
    | ok resumed =>
      rw [hb] at h
      cases h
      rw [left, left, if_pos hf]
      unfold Coroutine.resume at hb
      split at hb
      · cases hb
      · split at hb
        · next value pending hnext =>
          cases hb
          have hlist := congrArg List.length (Yields.toList_eq_of_next? hnext)
          rw [List.length_cons, Yields.length_toList, Yields.length_toList] at hlist
          simp only [Resumption.isFinal, Bool.false_eq_true, if_false, if_true]
          exact ⟨by omega, fun _ _ => by omega⟩
        · cases hb
          exact ⟨Nat.zero_le _, fun hvalue => by cases hvalue⟩
        · cases hb
          exact ⟨Nat.zero_le _, fun hvalue => by cases hvalue⟩

theorem left_resumed {generator after : Generator} (h : generator.Resumed after) :
    after.left ≤ generator.left := by
  induction h with
  | refl => exact Nat.le_refl _
  | tail _ last ih =>
    obtain ⟨outcome, hr⟩ := last
    exact Nat.le_trans (left_resume hr).1 ih

end Generator

/-! ### Stores -/

namespace Store

/-- The number of values that the first leaf of an iterator has left. -/
def left (store : Store) : Role → UInt64 → Nat
  | .array, _ | .zip [], _ => 0
  | .elements, iterator =>
    match store.get? iterator with
    | some (.block _ words) =>
      match store.get? (words.peek 0) with
      | some (.array elements _) => elements.length - (words.peek 1).toNat
      | _ => 0
    | _ => 0
  | .range, iterator =>
    match store.get? iterator with
    | some (.block _ words) => ((words.peek 1).toInt64.toInt - (words.peek 0).toInt64.toInt).toNat
    | _ => 0
  | .generator, handle =>
    match store.get? handle with
    | some (.generator generator) => generator.left
    | _ => 0
  | .enumerate role, state =>
    match store.get? state with
    | some cell => left store role (cell.words.peek Layout.sourceIndex)
    | none => 0
  | .zip (role :: _), state =>
    match store.get? state with
    | some cell => left store role (cell.words.peek 0)
    | none => 0

variable {cast : Cast} {store after : Store} {address : UInt64}

theorem left_elements {block : Block} {words : Words} {elements : List Int64} {calls : Nat}
    (h : store.get? address = some (.block block words))
    (ha : store.get? (words.peek 0) = some (.array elements calls)) :
    store.left .elements address = elements.length - (words.peek 1).toNat := by
  change (match store.get? address with
    | some (.block _ words) =>
      match store.get? (words.peek 0) with
      | some (.array elements _) => elements.length - (words.peek 1).toNat
      | _ => 0
    | _ => 0) = _
  rw [h]
  simp only [ha]

theorem left_range {block : Block} {words : Words}
    (h : store.get? address = some (.block block words)) : store.left .range address =
      ((words.peek 1).toInt64.toInt - (words.peek 0).toInt64.toInt).toNat := by
  change (match store.get? address with
    | some (.block _ words) => ((words.peek 1).toInt64.toInt - (words.peek 0).toInt64.toInt).toNat
    | _ => 0) = _
  rw [h]

theorem left_generator {generator : Generator}
    (h : store.get? address = some (.generator generator)) :
    store.left .generator address = generator.left := by
  change (match store.get? address with
    | some (.generator generator) => generator.left
    | _ => 0) = _
  rw [h]

theorem left_enumerate {role : Role} {cell : Cell} (h : store.get? address = some cell) :
    store.left (.enumerate role) address =
      store.left role (cell.words.peek Layout.sourceIndex) := by
  change (match store.get? address with
    | some cell => store.left role (cell.words.peek Layout.sourceIndex)
    | none => 0) = _
  rw [h]

theorem left_zip {role : Role} {roles : List Role} {cell : Cell}
    (h : store.get? address = some cell) :
    store.left (.zip (role :: roles)) address = store.left role (cell.words.peek 0) := by
  change (match store.get? address with
    | some cell => store.left role (cell.words.peek 0)
    | none => 0) = _
  rw [h]

/-- Nothing is left of what has ended. -/
theorem left_of_none (h : store.get? address = none) : ∀ role : Role, store.left role address = 0
  | .array => by rw [left]
  | .elements => by rw [left, h]
  | .range => by rw [left, h]
  | .generator => by rw [left, h]
  | .enumerate _ => by rw [left, h]
  | .zip [] => by rw [left]
  | .zip (_ :: _) => by rw [left, h]

/-- What has ended has nothing left, so only what is there counts. -/
theorem left_le_of_alive {role : Role} {bound : Nat}
    (h : ∀ cell, after.get? address = some cell → after.left role address ≤ bound) :
    after.left role address ≤ bound := by
  cases hc : after.get? address with
  | none => rw [left_of_none hc]; exact Nat.zero_le _
  | some cell => exact h cell hc

/-- Moving on, an enumerate keeps its source. -/
theorem left_enumerate_le {role : Role} {cell : Cell} (hl : Later cast store after)
    (hm : (address, .enumerate role) ∈ cast) (hc : store.get? address = some cell) :
    after.left (.enumerate role) address ≤
      after.left role (cell.words.peek Layout.sourceIndex) := by
  refine left_le_of_alive fun found hfound => ?_
  obtain ⟨old, hold, hpass⟩ := hl.passes hm hfound
  rw [hc] at hold
  cases hold
  cases hpass with
  | enumerate _ same =>
    rw [left_enumerate hfound]
    simp only [Cell.words, same]
    exact Nat.le_refl _

/-- So does a zip. -/
theorem left_zip_le {role : Role} {roles : List Role} {cell : Cell} (hl : Later cast store after)
    (hm : (address, .zip (role :: roles)) ∈ cast) (hc : store.get? address = some cell) :
    after.left (.zip (role :: roles)) address ≤ after.left role (cell.words.peek 0) := by
  refine left_le_of_alive fun found hfound => ?_
  obtain ⟨old, hold, hpass⟩ := hl.passes hm hfound
  rw [hc] at hold
  cases hold
  cases hpass with
  | zip same =>
    rw [left_zip hfound]
    simp only [Cell.words, same 0 (Nat.succ_pos _)]
    exact Nat.le_refl _

/-- **Moving on**, there is no more left. -/
theorem left_later : ∀ (role : Role) {address : UInt64}, Staged cast store →
    Later cast store after → (address, role) ∈ cast →
    after.left role address ≤ store.left role address
  | .array, address, h, hl, hm => by rw [left]; exact Nat.zero_le _
  | .zip [], address, h, hl, hm => by rw [left]; exact Nat.zero_le _
  | .elements, address, h, hl, hm => by
    refine left_le_of_alive fun cell hc => ?_
    obtain ⟨old, hold, hpass⟩ := hl.passes hm hc
    have hfits := h.fits hm hold
    cases hpass with
    | @elements block words words' array index =>
      cases hfits with
      | elements harray =>
        -- an array that has gone has no elements left, and one that is there has kept its
        -- elements
        cases ha : after.get? (words'.peek 0) with
        | none => rw [left, hc]; simp only [ha]; exact Nat.zero_le _
        | some counter =>
          obtain ⟨before, hbefore, hcounted⟩ := hl.passes (by rw [array]; exact harray) ha
          cases hcounted with
          | array elements calls calls' =>
            rw [array] at hbefore
            rw [left_elements hc ha, left_elements hold hbefore]
            omega
  | .range, address, h, hl, hm => by
    refine left_le_of_alive fun cell hc => ?_
    obtain ⟨old, hold, hpass⟩ := hl.passes hm hc
    cases hpass with
    | range stop number =>
      have hle := Int64.le_iff_toInt_le.mp number
      rw [left_range hc, left_range hold, stop]
      omega
  | .generator, address, h, hl, hm => by
    refine left_le_of_alive fun cell hc => ?_
    obtain ⟨old, hold, hpass⟩ := hl.passes hm hc
    cases hpass with
    | generator resumed =>
      rw [left_generator hc, left_generator hold]
      exact Generator.left_resumed resumed
  | .enumerate role, address, h, hl, hm => by
    refine left_le_of_alive fun cell hc => ?_
    obtain ⟨old, hold, -⟩ := hl.passes hm hc
    rw [left_enumerate hold]
    cases h.fits hm hold with
    | enumerate hsource =>
      exact Nat.le_trans (left_enumerate_le hl hm hold) (left_later role h hl hsource)
  | .zip (role :: roles), address, h, hl, hm => by
    refine left_le_of_alive fun cell hc => ?_
    obtain ⟨old, hold, -⟩ := hl.passes hm hc
    rw [left_zip hold]
    cases h.fits hm hold with
    | zip hsources =>
      exact Nat.le_trans (left_zip_le hl hm hold) (left_later role h hl (hsources 0 role rfl))

/-- **There is no more left** than the store allows rounds. -/
theorem left_le_rounds : ∀ (role : Role) (address : UInt64), store.left role address ≤ store.rounds
  | .array, _ => by rw [left]; exact Nat.zero_le _
  | .zip [], _ => by rw [left]; exact Nat.zero_le _
  | .elements, address => by
    rw [left]
    split
    · next block words hc =>
      split
      · next elements calls ha =>
        have hvalues : elements.length ≤ store.rounds := Tree.values_le_rounds ha
        omega
      · exact Nat.zero_le _
    · exact Nat.zero_le _
  | .range, address => by
    rw [left]
    split
    · next block words hc =>
      have hsize : UInt64.size = 2 ^ 64 := rfl
      have hstop := (words.peek 1).toInt64.toInt_lt
      have hnumber := (words.peek 0).toInt64.le_toInt
      rw [rounds]
      omega
    · exact Nat.zero_le _
  | .generator, address => by
    rw [left]
    split
    · next generator hc =>
      have hvalues : generator.body.pending.count ≤ store.rounds := Tree.values_le_rounds hc
      unfold Generator.left
      split
      · exact hvalues
      · exact Nat.zero_le _
    · exact Nat.zero_le _
  | .enumerate role, address => by
    rw [left]
    split
    · exact left_le_rounds role _
    · exact Nat.zero_le _
  | .zip (role :: roles), address => by
    rw [left]
    split
    · exact left_le_rounds role _
    · exact Nat.zero_le _

end Store

/-! ### Steps -/

namespace Exec

variable {cast : Cast} {store : Store} {iterator : UInt64} {step : Step}

theorem left_arrayNext (h : Staged cast store) (hm : (iterator, .elements) ∈ cast)
    (hs : store.arrayNext iterator = .ok step) (hok : step.status = Status.ok) :
    step.store.left .elements iterator < store.left .elements iterator := by
  obtain ⟨block, words, elements, calls, hcell, harray, ha, hshort, hcases⟩ :=
    Store.arrayNext_eq_ok h hm hs
  rcases hcases with ⟨value, hv, rfl⟩ | ⟨-, rfl⟩
  · have hlt : (words.peek 1).toNat < elements.length := (List.getElem?_eq_some_iff.mp hv).1
    have hne : iterator ≠ words.peek 0 := by
      intro heq
      rw [← heq, hcell] at ha
      cases ha
    have hsame : (words.poke 1 (words.peek 1 + 1)).peek 0 = words.peek 0 :=
      Words.peek_poke_of_ne (by decide) _ _
    rw [Store.left_elements hcell ha,
      @Store.left_elements _ _ block (words.poke 1 (words.peek 1 + 1)) elements (calls + 1)
        (Store.get?_set_self (by rw [Store.get?_set_of_ne hne, hcell]))
        (by rw [hsame, Store.get?_set_of_ne hne.symm, Store.get?_set_self ha]),
      Words.peek_poke_self, Store.toNat_add_one_of_lt hlt hshort]
    omega
  · exact absurd hok stop_ne_ok

theorem left_rangeNext (hs : store.rangeNext iterator = .ok step) (hok : step.status = Status.ok) :
    step.store.left .range iterator < store.left .range iterator := by
  obtain ⟨block, words, words', hcell, hstop, hstore, -, hcases⟩ := Store.rangeNext_eq_ok hs
  rcases hcases with ⟨hlt, hnumber, -⟩ | ⟨-, -, hstatus, -⟩
  · have hnext := toInt_add_one_of_lt hlt
    have hless := Int64.lt_iff_toInt_lt.mp hlt
    rw [hstore, Store.left_range hcell, Store.left_range (Store.get?_set_self hcell), hstop, hnumber,
      UInt64.toInt64_add, show (1 : UInt64).toInt64 = 1 from rfl, hnext]
    omega
  · rw [hstatus] at hok
    exact absurd hok stop_ne_ok

theorem left_generatorNext (h : Staged cast store) (hm : (iterator, .generator) ∈ cast)
    (hs : store.generatorNext iterator = .ok step) (hok : step.status = Status.ok) :
    step.store.left .generator iterator < store.left .generator iterator := by
  obtain ⟨generator, outcome, after, hg, hr, rfl⟩ := Store.generatorNext_eq_ok hs
  cases h.fits hm hg with
  | generator proper =>
    rw [Store.left_generator hg, Store.left_generator (Store.get?_set_self hg)]
    refine (Generator.left_resume hr).2 ?_ proper
    cases hfinal : outcome.isFinal with
    | false => rfl
    | true => exact absurd hok (Store.status_ne_ok_of_isFinal hfinal)

theorem left_leaf {kind : Kind} {role : Role} {routine : Intrinsic} (h : Staged cast store)
    (hk : kind.role? = some role) (hr : role.routine? = some routine) (hm : (iterator, role) ∈ cast)
    (hs : next runtime kind iterator store = .ok step) (hok : step.status = Status.ok) :
    step.store.left role iterator < store.left role iterator := by
  rw [next_leaf hk hr] at hs
  obtain ⟨inner, hinner, hstatus, -, hstore⟩ := linkedNext_eq_ok hs
  have hok' : inner.status = Status.ok := hstatus.symm.trans hok
  -- noting the call leaves as much as before
  have hnoted : ∀ {role : Role} {routine : Intrinsic}, role.routine? = some routine →
      step.store.left role iterator = inner.store.left role iterator := fun {role routine} hr => by
    rw [hstore]
    cases role with
    | elements => rw [Store.left, Store.left]; rfl
    | range => rw [Store.left, Store.left]; rfl
    | generator => rw [Store.left, Store.left]; rfl
    | array => cases hr
    | enumerate => cases hr
    | zip => cases hr
  rw [hnoted hr]
  cases role with
  | elements => cases hr; exact left_arrayNext h hm hinner hok'
  | range => cases hr; exact left_rangeNext hinner hok'
  | generator => cases hr; exact left_generatorNext h hm hinner hok'
  | array => cases hr
  | enumerate => cases hr
  | zip => cases hr

/-- **A step with a value** leaves less. -/
theorem left_next : ∀ (role : Role) {kind : Kind} {iterator : UInt64} {store : Store} {step : Step},
    Staged cast store → kind.role? = some role → (iterator, role) ∈ cast →
    next runtime kind iterator store = .ok step → step.status = Status.ok →
    step.store.left role iterator < store.left role iterator
  | .array, kind, iterator, store, step, h, hk, hm, hs, hok => by cases Kind.roleCases hk
  | .elements, kind, iterator, store, step, h, hk, hm, hs, hok => left_leaf h hk rfl hm hs hok
  | .range, kind, iterator, store, step, h, hk, hm, hs, hok => left_leaf h hk rfl hm hs hok
  | .generator, kind, iterator, store, step, h, hk, hm, hs, hok => left_leaf h hk rfl hm hs hok
  | .enumerate role, kind, state, store, step, h, hk, hm, hs, hok => by
    have hlater := later_next (.enumerate role) h hk hm hs
    cases Kind.roleCases hk with
    | enumerate hsource =>
      obtain ⟨block, words, inner, hc, hn, rfl⟩ := next_enumerate_eq_ok hs
      have hmoved := later_moveCount h hm
      have hrole := mem_cast_enumerate h hm (by rw [hc]; rfl)
      have hless := left_next role (h.later hmoved) hsource hrole hn hok
      have hbefore := Store.left_later role h hmoved hrole
      have hword : store.word state Layout.sourceIndex = words.peek Layout.sourceIndex :=
        Store.word_of_get? hc _
      rw [hword] at hless hbefore
      rw [Store.left_enumerate hc]
      exact Nat.lt_of_le_of_lt (Store.left_enumerate_le hlater hm hc)
        (Nat.lt_of_lt_of_le hless hbefore)
  | .zip [], kind, state, store, step, h, hk, hm, hs, hok => by
    cases Kind.roleCases hk with
    | zip hsources =>
      rw [Kind.roles?_eq_nil hsources, next_zip_nil] at hs
      cases hs
      exact absurd hok stop_ne_ok
  | .zip (role :: roles), kind, state, store, step, h, hk, hm, hs, hok => by
    have hlater := later_next (.zip (role :: roles)) h hk hm hs
    cases Kind.roleCases hk with
    | zip hsources =>
      obtain ⟨source, rest, rfl, hrole, hroles⟩ := Kind.roles?_eq_cons hsources
      obtain ⟨slot, slots, hslots⟩ := List.exists_cons_of_length_eq_add_one
        (length_slots_zip (source :: rest))
      rw [next_zip_cons, hslots] at hs
      obtain ⟨hsome, inner, hn, ⟨hfail, heq⟩ | ⟨-, last, hr, heq⟩⟩ := nextRound_cons_eq_ok hs
      · have hstatus : step.status = inner.status := by rw [heq]
        rw [← hstatus, hok] at hfail
        cases hfail
      obtain ⟨old, hold⟩ := Option.isSome_iff_exists.mp hsome
      have hsource : (store.word state 0, role) ∈ cast := mem_cast_zip h hm hsome rfl
      -- the first source has a value as well, and the others leave it no more
      have hinner : inner.status = Status.ok := by
        have hvalid := valid_of_nextRound hr (by rw [heq] at hok; exact hok)
        simpa using hvalid
      have hless := left_next role h hrole hsource hn hinner
      have hstaged := h.later (later_next role h hrole hsource hn)
      have hrest := Store.left_later role hstaged (later_nextRound roles hstaged hroles hm
        (fun i role hi => by rw [Nat.zero_add, Nat.add_comm]; exact hi) hr) hsource
      have hstore : step.store = last.store := by rw [heq]
      rw [← hstore] at hrest
      have hword : store.word state 0 = old.words.peek 0 := Store.word_of_get? hold _
      rw [hword] at hless hrest
      rw [Store.left_zip hold]
      exact Nat.lt_of_le_of_lt (Store.left_zip_le hlater hm hold) (Nat.lt_of_le_of_lt hrest hless)

end Exec

end PullIter
