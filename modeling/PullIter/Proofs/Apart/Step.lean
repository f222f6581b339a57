import PullIter.Proofs.Apart.Reach

/-!
# A step in another store

What a step does depends on the objects that the iterator reaches, and on the elements of arrays.
In a store that agrees on these the same step is made, with the same answer, and whatever is changed
is changed alike.

## Main definitions

* `Echoes` — a step is made in another store.

## Main results

* `Store.arrayNext_of_get?` — a step of an iterator over an array, computed.
* `Exec.echoes_next` — **a step is made in any store that agrees** on what the iterator reaches.
-/

namespace PullIter

open Linkage (runtime)

/-- A step of one store is made in another: with the same answer, and with the same effects. -/
structure Echoes (cast : Cast) (own : List UInt64) (store other : Store) (step step' : Step) :
    Prop where
  status : step'.status = step.status
  writes : step'.writes = step.writes
  paired : Paired cast own own store other step.store step'.store
  agree : Agree cast own step.store step'.store

/-- What two steps leave is changed alike by the rest of a round. -/
theorem Echoes.trans {cast : Cast} {own : List UInt64} {store other : Store}
    {inner inner' rest rest' : Step} {writes : List Write}
    (h : Echoes cast own store other inner inner')
    (h' : Echoes cast own inner.store inner'.store rest rest') :
    Echoes cast own store other { rest with writes := writes ++ rest.writes }
      { rest' with writes := writes ++ rest'.writes } :=
  ⟨h'.status, congrArg (writes ++ ·) h'.writes, h.paired.trans h'.paired, h'.agree⟩

/-! ### Iterators over arrays -/

namespace Store

/-- What the advance of an iterator over an array answers, and the words that it leaves. -/
def arrayAnswer (elements : List Int64) (words : Words) : Status × List Write × Words :=
  match elements[(words.peek 1).toNat]? with
  | some value => (Status.ok, [.word value], words.poke 1 (words.peek 1 + 1))
  | none => (Status.stop, [], words)

/-- The iterator stays on its array. -/
theorem peek_arrayAnswer (elements : List Int64) (words : Words) :
    (arrayAnswer elements words).2.2.peek 0 = words.peek 0 := by
  unfold arrayAnswer
  split
  · exact Words.peek_poke_of_ne (by decide) _ _
  · rfl

/-- **A step of an iterator over an array** depends on the index and on the elements. -/
theorem arrayNext_of_get? {store : Store} {address : UInt64} {block : Block} {words : Words}
    {elements : List Int64} {calls : Nat} (h : store.get? address = some (.block block words))
    (ha : store.get? (words.peek 0) = some (.array elements calls)) :
    ∃ step, store.arrayNext address = .ok step ∧
      step.status = (arrayAnswer elements words).1 ∧
      step.writes = (arrayAnswer elements words).2.1 ∧
      step.store.get? address = some (.block block (arrayAnswer elements words).2.2) ∧
      step.store.get? (words.peek 0) = some (.array elements (calls + 1)) ∧
      Moves [address] (.call (words.peek 0)) store step.store := by
  have hne : address ≠ words.peek 0 := by
    intro heq
    rw [← heq, h] at ha
    cases ha
  have hcounted : (store.set (words.peek 0) (.array elements (calls + 1))).get? address =
      some (.block block words) := by rw [get?_set_of_ne hne, h]
  have hcall : Moves [address] (.call (words.peek 0)) store
      (store.set (words.peek 0) (.array elements (calls + 1))) :=
    (Moves.call ha).mono (List.nil_subset _)
  unfold arrayNext
  rw [blockAt_of_get? h]
  cases hv : elements[(words.peek 1).toNat]? with
  | some value =>
    simp only [ha, arrayAnswer, hv]
    refine ⟨_, rfl, rfl, rfl, get?_set_self hcounted, ?_, hcall.trans (.set _ address _)⟩
    rw [get?_set_of_ne hne.symm, get?_set_self ha]
  | none =>
    simp only [ha, arrayAnswer, hv]
    exact ⟨_, rfl, rfl, rfl, hcounted, get?_set_self ha, hcall⟩

end Store

/-! ### Leaves -/

namespace Exec

variable {cast : Cast} {own : List UInt64} {store other : Store} {iterator : UInt64} {step : Step}

/-- What a unit is answered when it asks an iterator over an array. -/
theorem next_elements_of_get? {kind : Kind} (hk : kind.role? = some .elements) {block : Block}
    {words : Words} {elements : List Int64} {calls : Nat}
    (h : store.get? iterator = some (.block block words))
    (ha : store.get? (words.peek 0) = some (.array elements calls)) :
    ∃ step, next runtime kind iterator store = .ok step ∧
      step.status = (Store.arrayAnswer elements words).1 ∧
      step.writes = (Store.arrayAnswer elements words).2.1 ∧
      step.store.get? iterator = some (.block block (Store.arrayAnswer elements words).2.2) ∧
      step.store.get? (words.peek 0) = some (.array elements (calls + 1)) ∧
      Moves [iterator] (.call (words.peek 0)) store step.store := by
  obtain ⟨inner, hinner, hstatus, hwrites, hafter, hcounted, hmoves⟩ := Store.arrayNext_of_get? h ha
  have hnext : (Provider.intrinsic .arrayNext).next iterator store = .ok inner := hinner
  let call : Call := .next (.intrinsic .arrayNext) iterator inner.status
  refine ⟨{ inner with store := inner.store.called call }, ?_, hstatus, hwrites, hafter, hcounted,
    hmoves.called call⟩
  rw [next_leaf hk rfl, Provider.linkedNext, hnext]
  rfl

/-- An iterator over an array that is asked is there, and so is the array. -/
theorem exists_record_of_next {kind : Kind} (h : Staged cast store)
    (hk : kind.role? = some .elements) (hm : (iterator, .elements) ∈ cast)
    (hs : next runtime kind iterator store = .ok step) : ∃ block words elements calls,
      store.get? iterator = some (.block block words) ∧ (words.peek 0, .array) ∈ cast ∧
      store.get? (words.peek 0) = some (.array elements calls) ∧ elements.length < UInt64.size := by
  rw [next_leaf hk rfl] at hs
  obtain ⟨inner, hinner, -⟩ := linkedNext_eq_ok hs
  obtain ⟨block, words, elements, calls, hcell, harray, ha, hshort, -⟩ :=
    Store.arrayNext_eq_ok h hm hinner
  exact ⟨block, words, elements, calls, hcell, harray, ha, hshort⟩

/-- One object is changed alike. -/
theorem echoes_set (ha : Agree cast own store other) (hm : iterator ∈ own) {old cell : Cell}
    (hold : store.get? iterator = some old) (status : Status) (writes : List Write) :
    Echoes cast own store other ⟨status, writes, store.set iterator cell⟩
      ⟨status, writes, other.set iterator cell⟩ where
  status := rfl
  writes := rfl
  paired :=
    have hsub : [iterator] ⊆ own := List.cons_subset.mpr ⟨hm, List.nil_subset _⟩
    ⟨0, .zero cast, rfl, rfl, (Moves.set store iterator cell).mono hsub,
      (Moves.set other iterator cell).mono hsub⟩
  agree := by
    refine ha.moves (.set store iterator cell) (.set other iterator cell) fun address h => ?_
    rw [List.mem_singleton.mp h, Store.get?_set_self hold,
      Store.get?_set_self (by rw [ha.same iterator hm, hold])]

theorem echoes_arrayNext (h : Staged cast store) (ha : Agree cast own store other)
    (hm : (iterator, .elements) ∈ cast) (ho : iterator ∈ own)
    (hs : store.arrayNext iterator = .ok step) :
    ∃ step', other.arrayNext iterator = .ok step' ∧ Echoes cast own store other step step' := by
  obtain ⟨block, words, elements, calls, hcell, harray, hcounter, -, -⟩ :=
    Store.arrayNext_eq_ok h hm hs
  have hcell' : other.get? iterator = some (.block block words) := by
    rw [ha.same iterator ho, hcell]
  obtain ⟨calls', hcounter'⟩ := ha.arrays harray hcounter
  obtain ⟨found, hfound, hstatus, hwrites, hafter, -, hmoves⟩ :=
    Store.arrayNext_of_get? hcell hcounter
  rw [hs] at hfound
  cases hfound
  obtain ⟨step', hs', hstatus', hwrites', hafter', -, hmoves'⟩ :=
    Store.arrayNext_of_get? hcell' hcounter'
  have hsub : [iterator] ⊆ own := List.cons_subset.mpr ⟨ho, List.nil_subset _⟩
  refine ⟨step', hs', by rw [hstatus', hstatus], by rw [hwrites', hwrites],
    ⟨.call (words.peek 0), .call harray, rfl, rfl, hmoves.mono hsub, hmoves'.mono hsub⟩,
    ha.moves hmoves hmoves' fun address hmem => ?_⟩
  rw [List.mem_singleton.mp hmem, hafter', hafter]

theorem echoes_rangeNext (ha : Agree cast own store other) (ho : iterator ∈ own)
    (hs : store.rangeNext iterator = .ok step) :
    ∃ step', other.rangeNext iterator = .ok step' ∧ Echoes cast own store other step step' := by
  unfold Store.rangeNext at hs
  split at hs
  · cases hs
  · next block words hb =>
    have hcell := Store.blockAt_eq_ok hb
    unfold Store.rangeNext
    rw [Store.blockAt_of_get? ((ha.same iterator ho).trans hcell)]
    simp only at hs ⊢
    split
    · next hle =>
      rw [if_pos hle] at hs
      cases hs
      exact ⟨_, rfl, echoes_set ha ho hcell _ _⟩
    · next hlt =>
      rw [if_neg hlt] at hs
      cases hs
      exact ⟨_, rfl, echoes_set ha ho hcell _ _⟩

theorem echoes_generatorNext (ha : Agree cast own store other) (ho : iterator ∈ own)
    (hs : store.generatorNext iterator = .ok step) :
    ∃ step', other.generatorNext iterator = .ok step' ∧ Echoes cast own store other step step' := by
  obtain ⟨generator, outcome, generator', hg, hr, rfl⟩ := Store.generatorNext_eq_ok hs
  have hcell : other.get? iterator = some (.generator generator) := by
    rw [ha.same iterator ho, hg]
  exact ⟨_, Store.generatorNext_of_resume hcell hr, echoes_set ha ho hg _ _⟩

theorem echoes_leaf {kind : Kind} {role : Role} {routine : Intrinsic} (h : Staged cast store)
    (ha : Agree cast own store other) (hk : kind.role? = some role) (hr : role.routine? = some routine)
    (hm : (iterator, role) ∈ cast) (ho : iterator ∈ own)
    (hs : next runtime kind iterator store = .ok step) :
    ∃ step', next runtime kind iterator other = .ok step' ∧
      Echoes cast own store other step step' := by
  rw [next_leaf hk hr] at hs ⊢
  obtain ⟨inner, hinner, hstatus, hwrites, hstore⟩ := linkedNext_eq_ok hs
  obtain ⟨inner', hinner', he⟩ : ∃ inner', (Provider.intrinsic routine).next iterator other =
      .ok inner' ∧ Echoes cast own store other inner inner' := by
    cases role with
    | elements => cases hr; exact echoes_arrayNext h ha hm ho hinner
    | range => cases hr; exact echoes_rangeNext ha ho hinner
    | generator => cases hr; exact echoes_generatorNext ha ho hinner
    | array => cases hr
    | enumerate => cases hr
    | zip => cases hr
  refine ⟨_, by rw [Provider.linkedNext, hinner']; rfl, ?_⟩
  obtain ⟨work, hw, hmade, hlive, hmoves, hmoves'⟩ := he.paired
  refine ⟨he.status.trans hstatus.symm, he.writes.trans hwrites.symm, ?_, ?_⟩
  · rw [hstore]
    exact ⟨work, hw, hmade, hlive, hmoves.called _, hmoves'.called _⟩
  · rw [hstore]
    exact ⟨he.agree.same, he.agree.arrays⟩

/-! ### Combinators -/

mutual

/-- **A step is made in any store that agrees** on what the iterator reaches. -/
theorem echoes_next : ∀ (role : Role) {kind : Kind} {iterator : UInt64} {store other : Store}
    {step : Step}, Staged cast store → Agree cast own store other → kind.role? = some role →
    (iterator, role) ∈ cast → store.reach role iterator ⊆ own →
    next runtime kind iterator store = .ok step →
    ∃ step', next runtime kind iterator other = .ok step' ∧ Echoes cast own store other step step'
  | .array, kind, iterator, store, other, step, h, ha, hk, hm, hreach, hs => by
    cases Kind.roleCases hk
  | .elements, kind, iterator, store, other, step, h, ha, hk, hm, hreach, hs => by
    rw [Store.reach] at hreach
    exact echoes_leaf h ha hk rfl hm (hreach (List.mem_singleton_self _)) hs
  | .range, kind, iterator, store, other, step, h, ha, hk, hm, hreach, hs => by
    rw [Store.reach] at hreach
    exact echoes_leaf h ha hk rfl hm (hreach (List.mem_singleton_self _)) hs
  | .generator, kind, iterator, store, other, step, h, ha, hk, hm, hreach, hs => by
    rw [Store.reach] at hreach
    exact echoes_leaf h ha hk rfl hm (hreach (List.mem_singleton_self _)) hs
  | .enumerate role, kind, state, store, other, step, h, ha, hk, hm, hreach, hs => by
    cases Kind.roleCases hk with
    | @enumerate source _ hsource =>
      obtain ⟨block, words, inner, hc, hn, rfl⟩ := next_enumerate_eq_ok hs
      rw [Store.reach, hc] at hreach
      obtain ⟨ho, hsub⟩ := List.cons_subset.mp hreach
      have hc' : other.get? state = some (.block block words) := by rw [ha.same state ho, hc]
      have hmoved := later_moveCount h hm
      have hrole := mem_cast_enumerate h hm (by rw [hc]; rfl)
      have hword : store.word state Layout.sourceIndex = words.peek Layout.sourceIndex :=
        Store.word_of_get? hc _
      -- the count moves alike in both stores
      have hsame : Echoes cast own store other ⟨Status.ok, [], store.moveCount state⟩
          ⟨Status.ok, [], other.moveCount state⟩ := by
        rw [Store.moveCount_of_get? hc, Store.moveCount_of_get? hc']
        exact echoes_set ha ho hc _ _
      obtain ⟨inner', hn', he⟩ := echoes_next role (h.later hmoved) hsame.agree hsource hrole
        (fun address hmem => hsub (by
          rw [hword] at hmem
          exact Store.reach_later role h hmoved (hword ▸ hrole) hmem)) hn
      refine ⟨counted (words.peek Layout.countIndex).toInt64 (payloadSlot source) inner', ?_, ?_⟩
      · rw [hword, Store.moveCount_of_get? hc'] at hn'
        rw [next_enumerate_of_get? hc', hn']
        rfl
      · refine ⟨he.status, ?_, hsame.paired.trans he.paired, he.agree⟩
        simp only [counted, he.status, he.writes]
  | .zip roles, kind, state, store, other, step, h, ha, hk, hm, hreach, hs => by
    cases Kind.roleCases hk with
    | @zip sources _ hsources =>
      cases sources with
      | nil =>
        rw [next_zip_nil] at hs ⊢
        cases hs
        exact ⟨_, rfl, rfl, rfl, .refl .., ha⟩
      | cons source sources =>
        rw [next_zip_cons] at hs ⊢
        rw [Store.reach] at hreach
        obtain ⟨ho, hsub⟩ := List.cons_subset.mp hreach
        refine echoes_nextRound roles h ha hsources hm (fun i role hi => by rwa [Nat.zero_add]) ho
          (fun cell hc => ?_) hs
        rw [hc] at hsub
        exact hsub

/-- So is a round over the sources of a zip from an index on. -/
theorem echoes_nextRound : ∀ (roles : List Role) {all : List Role} {kinds : List Kind}
    {state : UInt64} {index : Nat} {slots : List Nat} {valid : Bool} {store other : Store}
    {step : Step}, Staged cast store → Agree cast own store other → Kind.roles? kinds = some roles →
    (state, .zip all) ∈ cast →
    (∀ (i : Nat) (role : Role), roles[i]? = some role → all[index + i]? = some role) →
    state ∈ own →
    (∀ cell, store.get? state = some cell → store.reachFrom roles cell.words index ⊆ own) →
    nextRound runtime kinds state index slots valid store = .ok step →
    ∃ step', nextRound runtime kinds state index slots valid other = .ok step' ∧
      Echoes cast own store other step step'
  | [], all, kinds, state, index, slots, valid, store, other, step, h, ha, hk, hm, hall, ho, hreach,
      hs => by
    rw [Kind.roles?_eq_nil hk, nextRound_nil] at hs ⊢
    cases hs
    exact ⟨_, rfl, rfl, rfl, .refl .., ha⟩
  | role :: roles, all, kinds, state, index, [], valid, store, other, step, h, ha, hk, hm, hall, ho,
      hreach, hs => by
    rw [nextRound_noSlots] at hs ⊢
    cases hs
    exact ⟨_, rfl, rfl, rfl, .refl .., ha⟩
  | role :: roles, all, kinds, state, index, slot :: slots, valid, store, other, step, h, ha, hk, hm,
      hall, ho, hreach, hs => by
    obtain ⟨kind, rest, rfl, hrole, hroles⟩ := Kind.roles?_eq_cons hk
    obtain ⟨hsome, inner, hn, hcases⟩ := nextRound_cons_eq_ok hs
    have hsource : (store.word state index, role) ∈ cast :=
      mem_cast_zip h hm hsome (hall 0 role rfl)
    obtain ⟨cell, hc⟩ := Option.isSome_iff_exists.mp hsome
    have hword : store.word state index = cell.words.peek index := Store.word_of_get? hc _
    have hsub := hreach cell hc
    rw [Store.reachFrom, List.append_subset, ← hword] at hsub
    obtain ⟨inner', hn', he⟩ := echoes_next role h ha hrole hsource hsub.1 hn
    have hlater := later_next role h hrole hsource hn
    have hword' : other.word state index = store.word state index :=
      Store.word_congr (ha.same state ho) index
    have hpeek : other.peek state index = .ok (store.word state index) := by
      rw [Store.peek_of_isSome (by rw [ha.same state ho]; exact hsome), hword']
    rcases hcases with ⟨hfail, rfl⟩ | ⟨hgood, rest', hr, rfl⟩
    · refine ⟨_, nextRound_of_failure hpeek hn' (by rw [he.status]; exact hfail), he.status, ?_,
        he.paired, he.agree⟩
      rw [he.writes]
    · have hnext := getElem?_behind hall
      -- the zip has moved on, and its words are those of before
      have hrest : ∀ cell', inner.store.get? state = some cell' →
          inner.store.reachFrom roles cell'.words (index + 1) ⊆ own := by
        intro cell' hc'
        obtain ⟨old, hold, hpass⟩ := hlater.passes hm hc'
        rw [hc] at hold
        cases hold
        have hfits := h.fits hm hc
        cases hpass with
        | zip same =>
          cases hfits with
          | zip hsources =>
            refine List.Subset.trans (Store.reachFrom_later roles h hlater fun i role hi => ?_) hsub.2
            have hi' := hnext i role hi
            exact ⟨same _ (List.getElem?_eq_some_iff.mp hi').1, hsources _ role hi'⟩
      obtain ⟨last, hlast, hechoes⟩ := echoes_nextRound roles (h.later hlater) he.agree hroles hm
        hnext ho hrest hr
      rw [← he.status] at hgood hlast
      refine ⟨_, nextRound_of_not_failure hpeek hn' hgood hlast, ?_⟩
      rw [he.writes]
      exact he.trans hechoes

end

end Exec

end PullIter
