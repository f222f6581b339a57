import PullIter.Proofs.Apart.Step
import PullIter.Proofs.Shared.Trace

/-!
# The calls for one array

Any number of iterators over one array are asked in any order.  The array counts all of their calls,
and each of them has the elements in order, whatever the others have had.

## Main definitions

* `Asked.array?` — the array that a call asks for an element of.
* `elementCalls`, `elementCallsBy` — the calls for one array, and those of one iterator over it.
* `Delivers` — calls are answered with the elements in order, and then there are none.
* `Tally` — what arrays and iterators over them say of the calls that were made.

## Main results

* `Tally.element` — **a call for an element** is counted, and is answered with the next one.
* `Tally.recorded` — tallies are recorded.
-/

namespace PullIter

open Linkage (runtime)

/-! ### Calls for elements -/

namespace Asked

/-- The array that a call asks for an element of. -/
def array? (call : Asked) : Option UInt64 :=
  match call.kind.role? with
  | some .elements => some (call.store.word call.iterator 0)
  | _ => none

/-- What the call is answered with. -/
def answer (call : Asked) : Status × List Write := (call.step.status, call.step.writes)

/-- Only iterators over arrays ask for elements. -/
theorem array?_of_ne {call : Asked} {role : Role} (hk : call.kind.role? = some role)
    (hne : role ≠ .elements) : call.array? = none := by
  unfold array?
  rw [hk]
  cases role with
  | elements => exact absurd rfl hne
  | array => rfl
  | range => rfl
  | generator => rfl
  | enumerate => rfl
  | zip => rfl

theorem array?_of_elements {call : Asked} {cell : Cell} (hk : call.kind.role? = some .elements)
    (hc : call.store.get? call.iterator = some cell) : call.array? = some (cell.words.peek 0) := by
  unfold array?
  rw [hk]
  exact congrArg some (Store.word_of_get? hc 0)

end Asked

/-- The calls that ask for elements of an array. -/
def elementCalls (calls : List Asked) (array : UInt64) : List Asked :=
  calls.filter (·.array? = some array)

/-- The calls that ask an iterator for elements of an array. -/
def elementCallsBy (calls : List Asked) (array iterator : UInt64) : List Asked :=
  (elementCalls calls array).filter (·.iterator = iterator)

/-- What an iterator over an array answers when it is asked again, after some number of calls. -/
def elementAnswer (elements : List Int64) (asked : Nat) : Status × List Write :=
  match elements[asked]? with
  | some value => (Status.ok, [.word value])
  | none => (Status.stop, [])

/-- The calls are answered with the elements in order, and then there are none. -/
def Delivers (elements : List Int64) (calls : List Asked) : Prop :=
  calls.map Asked.answer = (List.range calls.length).map (elementAnswer elements)

theorem Delivers.nil (elements : List Int64) : Delivers elements [] := rfl

/-- One more call is answered with the next element. -/
theorem Delivers.snoc {elements : List Int64} {calls : List Asked} {call : Asked}
    (h : Delivers elements calls) (hnext : call.answer = elementAnswer elements calls.length) :
    Delivers elements (calls ++ [call]) := by
  unfold Delivers
  rw [List.map_append, h, List.length_append, List.length_singleton, List.range_succ,
    List.map_append, List.map_singleton, List.map_singleton, hnext]

/-! ### One more call -/

section

variable {calls more : List Asked} {call : Asked} {array iterator : UInt64}

theorem elementCalls_append (calls more : List Asked) (array : UInt64) :
    elementCalls (calls ++ more) array = elementCalls calls array ++ elementCalls more array :=
  List.filter_append ..

theorem elementCallsBy_append (calls more : List Asked) (array iterator : UInt64) :
    elementCallsBy (calls ++ more) array iterator =
      elementCallsBy calls array iterator ++ elementCallsBy more array iterator := by
  rw [elementCallsBy, elementCalls_append, List.filter_append]
  rfl

/-- A call that asks for no element of the array. -/
theorem elementCalls_eq_nil (h : ∀ call ∈ more, call.array? ≠ some array) :
    elementCalls more array = [] := by
  rw [elementCalls, List.filter_eq_nil_iff]
  intro call hm
  simpa using h call hm

theorem elementCallsBy_eq_nil (h : ∀ call ∈ more, call.array? = some array →
    call.iterator ≠ iterator) : elementCallsBy more array iterator = [] := by
  rw [elementCallsBy, List.filter_eq_nil_iff]
  intro call hm
  rw [elementCalls, List.mem_filter] at hm
  simpa using h call hm.1 (by simpa using hm.2)

theorem elementCallsBy_singleton (h : call.array? = some array) :
    elementCallsBy [call] array call.iterator = [call] := by
  rw [elementCallsBy, elementCalls, List.filter_cons_of_pos (by simpa using h), List.filter_nil,
    List.filter_cons_of_pos (by simp), List.filter_nil]

/-- A call counts for its array, and for no other. -/
theorem length_elementCalls_singleton (h : call.array? = some array) (other : UInt64) :
    (elementCalls [call] other).length = (Work.call array).counted other := by
  by_cases heq : other = array
  · rw [elementCalls, List.filter_cons_of_pos (by rw [heq]; simpa using h), List.filter_nil]
    exact (if_pos heq).symm
  · rw [elementCalls_eq_nil fun found hm hfound => ?_]
    · exact (if_neg heq).symm
    · rw [List.mem_singleton.mp hm, h] at hfound
      exact heq (Option.some.inj hfound).symm

/-- A call is one of its iterator for its array, and of no other. -/
theorem elementCallsBy_singleton_of_not {other : UInt64} (h : call.array? = some array)
    (hnot : ¬(other = array ∧ iterator = call.iterator)) :
    elementCallsBy [call] other iterator = [] := by
  refine elementCallsBy_eq_nil fun found hm hfound hsame => hnot ?_
  rw [List.mem_singleton.mp hm] at hfound hsame
  exact ⟨Option.some.inj (hfound.symm.trans h), hsame.symm⟩

end

/-! ### Tallies -/

/-- An array has counted the calls for its elements, and the calls of each iterator over it were
answered with its elements in order.  An iterator is at the element after those that it has had. -/
structure Tally (cast : Cast) (store : Store) (calls : List Asked) : Prop where
  known : ∀ call ∈ calls, ∀ array, call.array? = some array →
    (array, .array) ∈ cast ∧ (call.iterator, .elements) ∈ cast
  counted : ∀ {array elements count}, (array, .array) ∈ cast →
    store.get? array = some (.array elements count) → count = (elementCalls calls array).length
  delivers : ∀ {array elements count}, (array, .array) ∈ cast →
    store.get? array = some (.array elements count) →
    ∀ iterator, Delivers elements (elementCallsBy calls array iterator)
  index : ∀ {iterator block words elements count}, (iterator, .elements) ∈ cast →
    (words.peek 0, .array) ∈ cast → store.get? iterator = some (.block block words) →
    store.get? (words.peek 0) = some (.array elements count) →
    (words.peek 1).toNat =
      min (elementCallsBy calls (words.peek 0) iterator).length elements.length

/-- Arrays and iterators over them are left alone. -/
def Silent (cast : Cast) (store after : Store) : Prop :=
  ∀ {address role cell}, (address, role) ∈ cast → role = .array ∨ role = .elements →
    after.get? address = some cell → store.get? address = some cell

/-- An object of another role is changed. -/
theorem Silent.set {cast : Cast} {store : Store} {address : UInt64} {role : Role}
    (hs : Staged cast store) (hm : (address, role) ∈ cast) (harray : role ≠ .array)
    (helements : role ≠ .elements) (cell : Cell) : Silent cast store (store.set address cell) := by
  intro other found any ho hrole hc
  have hne : other ≠ address := by
    rintro rfl
    obtain rfl := hs.unique hm ho
    exact hrole.elim harray helements
  rwa [Store.get?_set_of_ne hne] at hc

namespace Tally

variable {cast more : Cast} {store after : Store} {calls : List Asked}

theorem nil : Tally [] store [] :=
  ⟨fun _ hm => absurd hm List.not_mem_nil, fun hm => absurd hm List.not_mem_nil,
    fun hm => absurd hm List.not_mem_nil, fun hm => absurd hm List.not_mem_nil⟩

/-- Calls that ask for no elements leave a tally as it is. -/
theorem silent {others : List Asked} (h : Tally cast store calls) (hs : Silent cast store after)
    (hothers : ∀ call ∈ others, call.array? = none) : Tally cast after (calls ++ others) := by
  have hcalls : ∀ array, elementCalls (calls ++ others) array = elementCalls calls array := by
    intro array
    have hnone : elementCalls others array = [] := elementCalls_eq_nil fun call hm heq => by
      rw [hothers call hm] at heq
      cases heq
    rw [elementCalls_append, hnone, List.append_nil]
  have hcallsBy : ∀ array iterator, elementCallsBy (calls ++ others) array iterator =
      elementCallsBy calls array iterator := fun array iterator => by
    rw [elementCallsBy, hcalls, elementCallsBy]
  refine ⟨fun call hm array heq => ?_, fun hm hc => ?_, fun hm hc iterator => ?_,
    fun hi hm hb hc => ?_⟩
  · rcases List.mem_append.mp hm with hm | hm
    · exact h.known call hm array heq
    · rw [hothers call hm] at heq
      cases heq
  · rw [hcalls]
    exact h.counted hm (hs hm (.inl rfl) hc)
  · rw [hcallsBy]
    exact h.delivers hm (hs hm (.inl rfl) hc) iterator
  · rw [hcallsBy]
    exact h.index hi hm (hs hi (.inr rfl) hb) (hs hm (.inl rfl) hc)

/-- **A new array** has counted no calls, and a new iterator is at the first element. -/
theorem grows (hs : Staged cast store) (h : Tally cast store calls)
    (hg : Grows cast store more after) : Tally more after calls := by
  -- nobody has asked what is new
  have hnever : ∀ {array}, store.unused ≤ UInt64.toNat array → elementCalls calls array = [] :=
    fun hle => elementCalls_eq_nil fun call hm heq =>
      absurd (hs.bound (h.known call hm _ heq).1) (Nat.not_lt.mpr hle)
  have hneverBy : ∀ {array iterator}, store.unused ≤ UInt64.toNat iterator →
      elementCallsBy calls array iterator = [] := fun hle =>
    elementCallsBy_eq_nil fun call hm heq hsame =>
      absurd (hs.bound (h.known call hm _ heq).2) (Nat.not_lt.mpr (hsame ▸ hle))
  refine ⟨fun call hm array heq => ?_, fun hm hc => ?_,
    fun {array elements count} hm hc iterator => ?_, fun hi hm hb hc => ?_⟩
  · obtain ⟨harray, hiterator⟩ := h.known call hm array heq
    exact ⟨hg.subset harray, hg.subset hiterator⟩
  · rcases hg.fresh hm with hold | ⟨hle, hfresh⟩
    · exact h.counted hold (hg.still.kept hold hc)
    · rw [hnever hle]
      exact hfresh _ hc
  · rcases hg.fresh hm with hold | ⟨hle, -⟩
    · exact h.delivers hold (hg.still.kept hold hc) iterator
    · rw [elementCallsBy, hnever hle]
      exact .nil elements
  · rcases hg.fresh hi with hold | ⟨hle, hfresh⟩
    · have hblock := hg.still.kept hold hb
      cases hs.fits hold hblock with
      | elements harray => exact h.index hold harray hblock (hg.still.kept harray hc)
    · have hfirst : _ = (0 : UInt64) := hfresh _ hb
      rw [hfirst, hneverBy hle]
      exact (Nat.zero_min _).symm

/-- The answer of an iterator that is at the element after those that it has had. -/
theorem arrayAnswer_of_index {elements : List Int64} {words : Words} {asked : Nat}
    (hshort : elements.length < UInt64.size)
    (hindex : (words.peek 1).toNat = min asked elements.length) :
    ((Store.arrayAnswer elements words).1, (Store.arrayAnswer elements words).2.1) =
        elementAnswer elements asked ∧
      ((Store.arrayAnswer elements words).2.2.peek 1).toNat = min (asked + 1) elements.length := by
  unfold Store.arrayAnswer elementAnswer
  by_cases hlt : asked < elements.length
  · have heq : (words.peek 1).toNat = asked := by omega
    rw [heq, List.getElem?_eq_getElem hlt]
    refine ⟨rfl, ?_⟩
    rw [Words.peek_poke_self, Store.toNat_add_one_of_lt (by omega) hshort]
    omega
  · rw [List.getElem?_eq_none (by omega), List.getElem?_eq_none (by omega)]
    exact ⟨rfl, by simp only; omega⟩

/-- **A call for an element** is counted by the array, and is answered with the next one. -/
theorem element {kind : Kind} {iterator : UInt64} {step : Step} (hs : Staged cast store)
    (h : Tally cast store calls) (hk : kind.role? = some .elements)
    (hm : (iterator, .elements) ∈ cast) (hn : Exec.next runtime kind iterator store = .ok step) :
    Tally cast step.store (calls ++ [⟨kind, iterator, store, step⟩]) := by
  obtain ⟨block, words, elements, count, hcell, harray, hcounter, hshort⟩ :=
    Exec.exists_record_of_next hs hk hm hn
  obtain ⟨found, hfound, hstatus, hwrites, hafter, hcounter', hmoves⟩ :=
    Exec.next_elements_of_get? hk hcell hcounter
  rw [hn] at hfound
  cases hfound
  let call : Asked := ⟨kind, iterator, store, step⟩
  have hasked : call.array? = some (words.peek 0) := @Asked.array?_of_elements call _ hk hcell
  obtain ⟨hanswer, hindex⟩ := arrayAnswer_of_index hshort (h.index hm harray hcell hcounter)
  rw [← hstatus, ← hwrites] at hanswer
  have hne : ∀ {address}, address ≠ iterator → address ∉ [iterator] :=
    fun hne hmem => hne (List.mem_singleton.mp hmem)
  have harrayNe : ∀ {array}, (array, .array) ∈ cast → array ∉ [iterator] := by
    refine fun {array} ha => hne ?_
    rintro rfl
    cases hs.unique hm ha
  refine ⟨fun found hf array heq => ?_, fun {array all total} ha hc => ?_,
    fun {array all total} ha hc other => ?_, fun {other block' words' all total} hi ha hb hc => ?_⟩
  · -- the new call is for a known array
    rcases List.mem_append.mp hf with hf | hf
    · exact h.known found hf array heq
    · rw [List.mem_singleton.mp hf] at heq ⊢
      obtain rfl := Option.some.inj (hasked.symm.trans heq)
      exact ⟨harray, hm⟩
  · -- the array has counted one call more
    obtain ⟨before, hbefore, rfl⟩ := hmoves.exists_array (harrayNe ha) hc
    rw [h.counted ha hbefore, elementCalls_append, List.length_append,
      length_elementCalls_singleton hasked]
  · obtain ⟨before, hbefore, -⟩ := hmoves.exists_array (harrayNe ha) hc
    rw [elementCallsBy_append]
    -- only this iterator over this array was given an element
    by_cases hboth : array = words.peek 0 ∧ other = iterator
    · obtain ⟨rfl, rfl⟩ := hboth
      rw [hcounter] at hbefore
      cases hbefore
      rw [@elementCallsBy_singleton call _ hasked]
      exact (h.delivers ha hcounter other).snoc hanswer
    · rw [elementCallsBy_singleton_of_not hasked hboth, List.append_nil]
      exact h.delivers ha hbefore other
  · rw [elementCallsBy_append]
    -- the index of the iterator follows the elements that it was given; the others stand still
    by_cases heq : other = iterator
    · subst heq
      rw [hafter] at hb
      cases hb
      rw [Store.peek_arrayAnswer, hcounter'] at hc
      cases hc
      rw [Store.peek_arrayAnswer, @elementCallsBy_singleton call _ hasked, List.length_append]
      exact hindex
    · obtain ⟨before, hbefore, -⟩ := hmoves.exists_array (harrayNe ha) hc
      rw [elementCallsBy_singleton_of_not hasked fun hboth => heq hboth.2, List.append_nil]
      exact h.index hi ha (hmoves.get?_block (hne heq) hb) hbefore

end Tally

/-! ### Steps -/

namespace Exec

variable {cast : Cast}

/-- A leaf that is no iterator over an array leaves these alone. -/
theorem silent_leaf {kind : Kind} {role : Role} {routine : Intrinsic} {iterator : UInt64}
    {store : Store} {step : Step} (hs : Staged cast store) (hk : kind.role? = some role)
    (hr : role.routine? = some routine) (hne : role ≠ .elements) (hm : (iterator, role) ∈ cast)
    (hn : next runtime kind iterator store = .ok step) : Silent cast store step.store := by
  rw [next_leaf hk hr] at hn
  obtain ⟨inner, hinner, -, -, hstore⟩ := linkedNext_eq_ok hn
  have hset : ∃ cell, inner.store = store.set iterator cell := by
    cases role with
    | elements => exact absurd rfl hne
    | range =>
      cases hr
      obtain ⟨_, _, _, -, -, hset, -⟩ := Store.rangeNext_eq_ok hinner
      exact ⟨_, hset⟩
    | generator =>
      cases hr
      obtain ⟨_, _, _, -, -, rfl⟩ := Store.generatorNext_eq_ok hinner
      exact ⟨_, rfl⟩
    | array => cases hr
    | enumerate => cases hr
    | zip => cases hr
  obtain ⟨cell, hset⟩ := hset
  intro address found any hi hrole hc
  rw [hstore, hset] at hc
  exact Silent.set hs hm (fun heq => by rw [heq] at hr; cases hr) hne cell hi hrole hc

theorem tally_leaf {kind : Kind} {role : Role} {routine : Intrinsic} {iterator : UInt64}
    {store : Store} {step : Step} {calls : List Asked} (hs : Staged cast store)
    (h : Tally cast store calls) (hk : kind.role? = some role) (hr : role.routine? = some routine)
    (hm : (iterator, role) ∈ cast) (hn : next runtime kind iterator store = .ok step) :
    Tally cast step.store (calls ++ asked runtime kind iterator store) := by
  rw [asked_leaf hk hr hn]
  by_cases hne : role = .elements
  · subst hne
    exact h.element hs hk hm hn
  · refine h.silent (silent_leaf hs hk hr hne hm hn) fun call hc => ?_
    rw [List.mem_singleton.mp hc]
    exact Asked.array?_of_ne hk hne

/-- Moving the count of an enumerate is none of their business. -/
theorem silent_moveCount {store : Store} {state : UInt64} {role : Role} (hs : Staged cast store)
    (hm : (state, .enumerate role) ∈ cast) : Silent cast store (store.moveCount state) := by
  unfold Store.moveCount
  split
  · exact Silent.set hs hm (fun h => by cases h) (fun h => by cases h) _
  · exact fun _ _ hc => hc

mutual

/-- **The calls of a step** go on with a tally. -/
theorem tally_next : ∀ (role : Role) {kind : Kind} {iterator : UInt64} {store : Store}
    {step : Step} {calls : List Asked}, Staged cast store → Tally cast store calls →
    kind.role? = some role → (iterator, role) ∈ cast →
    next runtime kind iterator store = .ok step →
    Tally cast step.store (calls ++ asked runtime kind iterator store)
  | .array, kind, iterator, store, step, calls, hs, h, hk, hm, hn => by cases Kind.roleCases hk
  | .elements, kind, iterator, store, step, calls, hs, h, hk, hm, hn => tally_leaf hs h hk rfl hm hn
  | .range, kind, iterator, store, step, calls, hs, h, hk, hm, hn => tally_leaf hs h hk rfl hm hn
  | .generator, kind, iterator, store, step, calls, hs, h, hk, hm, hn => tally_leaf hs h hk rfl hm hn
  | .enumerate role, kind, state, store, step, calls, hs, h, hk, hm, hn => by
    have hself := @Asked.array?_of_ne ⟨kind, state, store, step⟩ _ hk nofun
    cases Kind.roleCases hk with
    | enumerate hsource =>
    obtain ⟨block, words, inner, hc, hin, hstep⟩ := next_enumerate_eq_ok hn
    have hmoved := later_moveCount hs hm
    have hrole := mem_cast_enumerate hs hm (by rw [hc]; rfl)
    -- moving a count is no call of an array, nor is the call of the enumerate itself
    have hcount := h.silent (silent_moveCount hs hm) fun _ hc => absurd hc List.not_mem_nil
    rw [List.append_nil] at hcount
    have hinner := tally_next role (hs.later hmoved) hcount hsource hrole hin
    rw [show inner.store = step.store by rw [hstep]; rfl] at hinner
    rw [asked, asking_of_next hn, ← List.append_assoc]
    exact hinner.silent (fun _ _ hc => hc) fun call hc => by rw [List.mem_singleton.mp hc, hself]
  | .zip roles, kind, state, store, step, calls, hs, h, hk, hm, hn => by
    have hself := @Asked.array?_of_ne ⟨kind, state, store, step⟩ _ hk nofun
    cases Kind.roleCases hk with
    | @zip sources _ hsources =>
    have hround : Tally cast step.store (calls ++ askedFrom runtime sources state 0 store) := by
      cases sources with
      | nil =>
        rw [next_zip_nil] at hn
        cases hn
        rw [askedFrom, List.append_nil]
        exact h
      | cons source sources =>
        rw [next_zip_cons] at hn
        exact tally_nextRound roles hs h hsources hm (fun i role hr => by rwa [Nat.zero_add])
          (length_slots_zip _) hn
    rw [asked, asking_of_next hn, ← List.append_assoc]
    exact hround.silent (fun _ _ hc => hc) fun call hc => by rw [List.mem_singleton.mp hc, hself]

/-- So do the calls of a round from an index on. -/
theorem tally_nextRound : ∀ (roles : List Role) {all : List Role} {kinds : List Kind}
    {state : UInt64} {index : Nat} {slots : List Nat} {valid : Bool} {store : Store} {step : Step}
    {calls : List Asked}, Staged cast store → Tally cast store calls →
    Kind.roles? kinds = some roles → (state, .zip all) ∈ cast →
    (∀ (i : Nat) (role : Role), roles[i]? = some role → all[index + i]? = some role) →
    slots.length = kinds.length →
    nextRound runtime kinds state index slots valid store = .ok step →
    Tally cast step.store (calls ++ askedFrom runtime kinds state index store)
  | [], all, kinds, state, index, slots, valid, store, step, calls, hs, h, hk, hm, hall, hlen,
      hn => by
    obtain rfl := Kind.roles?_eq_nil hk
    rw [nextRound_nil] at hn
    cases hn
    rw [askedFrom, List.append_nil]
    exact h
  | role :: roles, all, kinds, state, index, slots, valid, store, step, calls, hs, h, hk, hm, hall,
      hlen, hn => by
    obtain ⟨kind, rest, rfl, hrole, hroles⟩ := Kind.roles?_eq_cons hk
    obtain ⟨slot, slots, rfl⟩ := List.exists_cons_of_length_eq_add_one hlen
    obtain ⟨hsome, inner, hin, hcases⟩ := nextRound_cons_eq_ok hn
    have hsource := mem_cast_zip hs hm hsome (hall 0 role rfl)
    have hlater := later_next role hs hrole hsource hin
    have hinner := tally_next role hs h hrole hsource hin
    rw [askedFrom, hin]
    rcases hcases with ⟨hfail, rfl⟩ | ⟨hgood, last, hr, rfl⟩
    · simp only [hfail, if_true, List.append_nil]
      exact hinner
    · simp only [hgood, Bool.false_eq_true, if_false, ← List.append_assoc]
      exact tally_nextRound roles (hs.later hlater) hinner hroles hm (getElem?_behind hall)
        (Nat.succ.inj hlen) hr

end

end Exec

/-- **Tallies are recorded.** -/
theorem Tally.recorded : Recorded Tally where
  next hs h hk hi hn := Exec.tally_next _ hs h hk hi hn
  grows hs h hg := h.grows hs hg

end PullIter
