import PullIter.Proofs.Ownership.Effect

/-!
# The sources of a combinator

An iterator of a source is made when a combinator takes it, and released when the combinator is
released.  A source that is an iterator itself is an alias: nothing is made of it and nothing is
released.  The iterators are found in the state of the combinator, in the order of the sources and
whether or not the sources live.

## Main definitions

* `Got` — what is known of an iterator that was made of a value.

## Main results

* `getiter_effect`, `releaseMade_effect` — an iterator that is made, and one that is released.
* `release_effect` — **releasing a combinator.**
-/

namespace PullIter

namespace Exec

open Store (Frame Only Recent)

variable {unit : Compiled} {made : List Combinator} {store after : Store}

/-! ### Iterators of sources -/

/-- The object that an iterator is made of, if it is one that a routine works on. -/
def Touched (kind : Kind) (address other : UInt64) : Prop :=
  kind.isCombinator = false ∧ other = address

theorem touched_spared {kind : Kind} {address other : UInt64} (hp : Points made store kind address)
    (ht : Touched kind address other) : Spared made other := by
  rw [ht.2]
  exact (hp.of_leaf ht.1).1

/-- An iterator over an array is a new object, and it is counted. -/
theorem counted_arrayGetiter {array iterator : UInt64}
    (h : store.arrayGetiter array = .ok (iterator, after)) :
    store.unused ≤ iterator.toNat ∧
      after.counters.arrayIter = store.counters.arrayIter + 1 := by
  unfold Store.arrayGetiter at h
  obtain ⟨address, mid, hmade, heq⟩ := Store.made_of_map (by decide) (by decide) h
  cases heq
  exact ⟨hmade.unused, congrArg (fun counters => counters.arrayIter + 1) hmade.counters⟩

/-- An iterator over an array that ends is counted. -/
theorem counted_arrayRelease {iterator : UInt64} (hne : iterator ≠ 0)
    (h : store.arrayRelease iterator = .ok after) :
    after.counters.arrayIter = store.counters.arrayIter + -1 := by
  rcases Store.arrayRelease_eq_ok h with ⟨hzero, -⟩ | rfl
  · exact absurd hzero hne
  · rfl

/-- What is known of an iterator that was made of a value. -/
structure Got (unit : Compiled) (made : List Combinator) (kind : Kind) (value iterator : UInt64)
    (store after : Store) : Prop where
  frame : Frame (Touched kind value) store after
  points : Points made after kind iterator
  origin : iterator = value ∨ Recent store after iterator
  effect : Store.Effect (unit.ServesArrays kind) (unit.taken kind value iterator) 0
    kind.arrayCount store after

/-- The leaves of what is no array are made and ended by no routine of arrays. -/
theorem serves_leaf {kind : Kind} {symbol : String} {provider : Provider}
    (h : unit.ServesArrays kind) (hleaf : kind.leafKinds = [kind]) (hne : kind ≠ .array)
    (hsymbol : symbol ∈ kind.calledSymbols) (hprov : unit.decls.provider? symbol = some provider) :
    provider ≠ .intrinsic .arrayGetiter ∧ provider ≠ .intrinsic .arrayRelease := by
  rcases h kind (by rw [hleaf]; exact List.mem_singleton_self _) with heq | hother
  · exact absurd heq hne
  · exact hother symbol hsymbol provider hprov

/-- **An iterator of a value** is the value itself or a new object. -/
theorem getiter_effect (hr : unit.RunsRuntime) {kind : Kind} {value iterator : UInt64}
    (ht : Typed made store) (hp : Points made store kind value)
    (hg : getiter unit.provided kind value store = .ok (iterator, after)) :
    Got unit made kind value iterator store after := by
  unfold getiter at hg
  split at hg
  · next symbol hsymbol =>
    obtain ⟨name, yields, inner, rfl⟩ : ∃ name yields inner,
        kind = .external (.iterable name yields symbol inner) := by
      unfold Kind.getiterSymbol? at hsymbol
      split at hsymbol
      · cases hsymbol; exact ⟨_, _, _, rfl⟩
      · cases hsymbol
    obtain ⟨provider, mid, hprov, hmade, rfl⟩ := Compiled.exists_of_provided_getiter hg
    have htouch : Store.Touches provider value store mid := (Provider.touches_getiter hmade).1
    -- an iterator that is made is new; an iterator over an array is no null and is counted
    have hrecent : Recent store mid iterator := (Provider.touches_getiter hmade).2
    have hframe : Frame (Touched (.external (.iterable name yields symbol inner)) value) store
        (mid.called (.getiter provider value iterator)) :=
      (htouch.frame_called _).mono fun a ha => ⟨rfl, ha⟩
    have hfirst := ht.wellFormed.first
    have hafter := htouch.frame.unused
    have harray : Kind.external (.iterable name yields symbol inner) = .array →
        iterator ≠ 0 ∧ mid.counters.arrayIter = store.counters.arrayIter + 1 := by
      intro heq
      cases heq
      rw [hr .arrayGetiter] at hprov
      cases hprov
      obtain ⟨hunused, hcount⟩ := counted_arrayGetiter hmade
      refine ⟨fun hzero => ?_, hcount⟩
      rw [hzero] at hunused
      exact absurd (Nat.le_trans hfirst hunused) (by decide)
    refine ⟨hframe, .leaf rfl (fun other hm heq => ?_) ?_ fun heq => (harray heq).1,
      .inr hrecent, ?_⟩
    · have hbounds := ht.bounds hm
      rw [heq] at hbounds
      rcases hrecent with ⟨hle, -⟩ | hlt
      · omega
      · omega
    · rcases hrecent with ⟨-, hlt⟩ | hlt
      · exact hlt
      · exact Nat.lt_of_lt_of_le hlt (Nat.le_trans hfirst hafter)
    · have htaken : unit.taken (.external (.iterable name yields symbol inner)) value iterator =
          [.getiter provider value iterator] := by
        simp only [Compiled.taken, Kind.getiterSymbol?, Option.bind_some, hprov]
      rw [htaken]
      refine htouch.effect (fun serves => ?_) (Store.custody_getiter ht.wellFormed hmade)
      unfold Kind.arrayCount
      split
      · next heq => exact (harray heq).2
      · next hne =>
        have hother := serves_leaf serves rfl hne (List.mem_cons_self ..) hprov
        exact htouch.arrays_eq hother.1 hother.2
  · next hsymbol =>
    cases hg
    -- the value is its own iterator
    have hne : kind ≠ .array := by
      rintro rfl
      cases hsymbol
    refine ⟨Frame.refl _ _, hp, .inl rfl, ?_⟩
    have htaken : unit.taken kind value value = [] := by
      simp only [Compiled.taken, hsymbol, Option.bind_none]
    rw [htaken, Kind.arrayCount, if_neg hne]
    exact .refl _ _

/-- **What was made of a value is released**, if it has to be. -/
theorem releaseMade_effect (hr : unit.RunsRuntime) {kind : Kind} {iterator : UInt64}
    (hp : Points made store kind iterator)
    (hs : releaseMade unit.provided kind iterator store = .ok after) :
    Frame (Touched kind iterator) store after ∧ Store.Effect (unit.ServesArrays kind)
      (unit.given kind iterator) 0 (-kind.arrayCount) store after := by
  unfold releaseMade at hs
  split at hs
  · next name yields getiter iname iyields next symbol =>
    obtain ⟨provider, mid, hprov, hrel, rfl⟩ := Compiled.exists_of_provided_release hs
    have htouch := Provider.touches_release hrel
    refine ⟨(htouch.frame_called _).mono fun a ha => ⟨rfl, ha⟩, ?_⟩
    have hgiven : unit.given (.external (.iterable name yields getiter
        (.iterator iname iyields next (some symbol)))) iterator =
        [.release provider iterator] := by
      simp only [Compiled.given, Kind.madeReleaseSymbol?, Option.bind_some, hprov]
    rw [hgiven]
    refine htouch.effect (fun serves => ?_) (htouch.custody rfl fun _ => rfl)
    unfold Kind.arrayCount
    split
    · next heq =>
      have hzero := (hp.of_leaf rfl).2.2 heq
      cases heq
      rw [hr .arrayRelease] at hprov
      cases hprov
      exact counted_arrayRelease hzero hrel
    · next hne =>
      have hmem : symbol ∈ (Kind.external (.iterable name yields getiter
          (.iterator iname iyields next (some symbol)))).calledSymbols := by
        simp [Kind.calledSymbols, Kind.symbols, External.symbols]
      have hother := serves_leaf serves rfl hne hmem hprov
      exact htouch.arrays_eq hother.1 hother.2
  · next hnone =>
    cases hs
    have hne : kind ≠ .array := by
      rintro rfl
      exact hnone _ _ _ _ _ _ _ rfl
    have hsymbol : kind.madeReleaseSymbol? = none := by
      unfold Kind.madeReleaseSymbol?
      split
      · next release =>
        cases release with
        | none => rfl
        | some symbol => exact absurd rfl (hnone _ _ _ _ _ _ symbol)
      · rfl
    have hgiven : unit.given kind iterator = [] := by
      simp only [Compiled.given, hsymbol, Option.bind_none]
    refine ⟨Frame.refl _ _, ?_⟩
    rw [hgiven, Kind.arrayCount, if_neg hne]
    exact .refl _ _

/-! ### Releasing a combinator -/

/-- The state of an enumerate has the iterator of its source. -/
theorem exists_source_enumerate (ht : Typed made store) {value : Combinator} (hm : value ∈ made)
    {source : Kind} (hkind : value.kind = .enumerate source) :
    ∃ iterator, store.peek value.state Layout.sourceIndex = .ok iterator ∧
      value.iterators = [iterator] ∧ Points made store source iterator := by
  obtain ⟨block, words, hg, -⟩ := ht.found value hm
  have hsource : value.kind.sources[0]? = some source := by rw [hkind]; rfl
  obtain ⟨hiterator, hpoints⟩ := ht.peek_source hm hg hsource
  have hfull : value.iterators.length = 1 := by rw [ht.full value hm, hkind]; rfl
  obtain ⟨iterator, hone⟩ := List.length_eq_one_iff.mp hfull
  rw [hkind] at hiterator hpoints
  rw [hone] at hiterator
  exact ⟨_, Store.peek_of_get? hg _, hone.trans (congrArg (fun word => [word])
    (Option.some.inj hiterator)), hpoints⟩

/-- The state of a zip has the iterators of its sources, one behind the other. -/
theorem exists_source_zip (ht : Typed made store) {value : Combinator} (hm : value ∈ made)
    {all : List Kind} (hkind : value.kind = .zip all) {kind : Kind} {kinds : List Kind} {index : Nat}
    (hall : kind :: kinds = all.drop index) :
    ∃ iterator, store.peek value.state index = .ok iterator ∧
      value.iterators.drop index = iterator :: value.iterators.drop (index + 1) ∧
      Points made store kind iterator ∧ kinds = all.drop (index + 1) := by
  have hsource : value.kind.sources[index]? = some kind := by
    have hget : (all.drop index)[0]? = some kind := by rw [← hall]; rfl
    rw [hkind]
    rwa [List.getElem?_drop] at hget
  obtain ⟨block, words, hg, -⟩ := ht.found value hm
  obtain ⟨hiterator, hpoints⟩ := ht.peek_source hm hg hsource
  have hword : value.kind.sourceWord index = index := by rw [hkind]; rfl
  rw [hword] at hiterator hpoints
  obtain ⟨hlt, hget⟩ := List.getElem?_eq_some_iff.mp hiterator
  refine ⟨_, Store.peek_of_get? hg _, ?_, hpoints, ?_⟩
  · rw [List.drop_eq_getElem_cons hlt, hget]
  · rw [← List.drop_drop, ← hall]
    rfl

/-- Releasing what was made of a source of a combinator. -/
theorem ran_releaseMade (hr : unit.RunsRuntime) {kind : Kind} {iterator : UInt64}
    (ht : Typed made store) (hp : Points made store kind iterator)
    (hs : releaseMade unit.provided kind iterator store = .ok after) :
    Ran made made (unit.ServesArrays kind) (unit.given kind iterator) 0 (-kind.arrayCount) store
      after := by
  obtain ⟨hframe, heffect⟩ := releaseMade_effect hr hp hs
  exact .of_frame ht hframe (fun _ ho => touched_spared hp ho) heffect

/-- Releasing what was made of the sources of a zip from an index on. -/
theorem releaseSources_effect (hr : unit.RunsRuntime) {value : Combinator} {all : List Kind}
    (hm : value ∈ made) (hkind : value.kind = .zip all) :
    ∀ {kinds : List Kind} {index : Nat} {store : Store}, Typed made store →
      kinds = all.drop index →
      releaseSources unit.provided kinds value.state index store = .ok after →
      Ran made made (∀ kind ∈ kinds, unit.ServesArrays kind)
        (unit.givenAll kinds (value.iterators.drop index)) 0 (-Kind.arrayCounts kinds) store after := by
  intro kinds
  induction kinds with
  | nil =>
    intro index store ht _ hs
    cases hs
    exact .refl ht _
  | cons kind kinds ih =>
    intro index store ht hall hs
    -- the state still has the word that was stored when the zip was made
    obtain ⟨iterator, hpeek, hdrop, hpoints, hrest⟩ := exists_source_zip ht hm hkind hall
    obtain ⟨-, mid, -, hmade, hmid⟩ := exists_of_releaseSources_cons hs
    have hfirst := (ran_releaseMade hr ht hpoints (hmade _ hpeek)).mono
      fun serves : ∀ source ∈ kind :: kinds, unit.ServesArrays source =>
        serves kind (List.mem_cons_self ..)
    have hbehind := (ih hfirst.typed hrest hmid).mono
      fun serves : ∀ source ∈ kind :: kinds, unit.ServesArrays source =>
        fun source hs => serves source (List.mem_cons_of_mem _ hs)
    rw [hdrop, Compiled.givenAll, Kind.arrayCounts, Int.neg_add]
    exact hfirst.trans hbehind

/-- Giving the storage of a state back. -/
theorem free_effect (hr : unit.RunsRuntime) {value : Combinator} (ht : Typed (value :: made) store)
    (serves : Prop)
    (hs : unit.provided.free value.kind.stateLayout value.state store = .ok after) :
    Ran (value :: made) made serves [Compiled.freed value.kind value.state] (-1) 0 store after := by
  have hbounds := ht.bounds (List.mem_cons_self ..)
  have hne : value.state ≠ 0 := by
    intro hzero
    rw [hzero] at hbounds
    exact absurd hbounds.1 (by decide)
  rw [Compiled.provided_free hr] at hs
  obtain rfl := Provider.linkedFree_eq_ok hne hs
  have hnoted : Frame (fun _ => False) (store.erase value.state)
      (((store.erase value.state).countTag AllocKind.combinatorState.tag (-1)).called
        (Compiled.freed value.kind value.state)) := Store.frame_of_cells_eq rfl rfl
  refine ⟨ht.erase.frame hnoted fun _ => False.elim, fun hp => ?_,
    .called (Nat.le_refl _) rfl fun hc hother => ⟨_, ?_, rfl⟩, rfl, rfl, fun _ => ?_⟩
  · exact (hp.erase hbounds.2).frame hnoted
  · exact (Store.get?_erase_of_ne fun heq => hother (congrArg some heq.symm)).trans hc
  · rw [Int.add_zero]
    rfl

/-- **Releasing a combinator** gives back what was taken of its sources, and then its state. -/
theorem release_effect (hr : unit.RunsRuntime) {value : Combinator} (ht : Typed (value :: made) store)
    (hs : release unit.provided value.kind value.state store = .ok after) :
    Ran (value :: made) made (unit.ServesArrays value.kind)
      (unit.closing value.kind value.iterators value.state) (-1)
      (-Kind.arrayCounts value.kind.sources) store after := by
  have hm : value ∈ value :: made := List.mem_cons_self ..
  have hsources : ∃ mid, Ran (value :: made) (value :: made) (unit.ServesArrays value.kind)
      (unit.givenAll value.kind.sources value.iterators) 0
      (-Kind.arrayCounts value.kind.sources) store mid ∧
      unit.provided.free value.kind.stateLayout value.state mid = .ok after := by
    cases hkind : value.kind with
    | enumerate source =>
      obtain ⟨iterator, hpeek, hone, hpoints⟩ := exists_source_enumerate ht hm hkind
      rw [hkind] at hs
      obtain ⟨-, mid, -, hmade, hmid⟩ := exists_of_release_enumerate hs
      have hran := (ran_releaseMade hr ht hpoints (hmade _ hpeek)).mono
        fun serves : unit.ServesArrays (.enumerate source) =>
          serves.sources source (List.mem_singleton_self _)
      rw [hone]
      refine ⟨mid, ?_, hmid⟩
      simpa [Kind.sources, Compiled.givenAll, Kind.arrayCounts] using hran
    | zip sources =>
      rw [hkind] at hs
      obtain ⟨mid, hmid, hfree⟩ := exists_of_release_zip hs
      have hran := releaseSources_effect hr hm hkind ht (show sources = sources.drop 0 from rfl) hmid
      exact ⟨mid, hran.mono Compiled.ServesArrays.sources, hfree⟩
    | generator => rw [hkind] at hs; cases hs
    | external => rw [hkind] at hs; cases hs
  obtain ⟨mid, hran, hfree⟩ := hsources
  have hall := hran.trans (free_effect hr hran.typed _ hfree)
  rw [Int.zero_add, Int.add_zero] at hall
  exact hall

end Exec

end PullIter
