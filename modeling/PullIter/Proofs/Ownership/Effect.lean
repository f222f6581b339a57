import PullIter.Proofs.Exec.Runtime
import PullIter.Proofs.Ownership.Typed
import PullIter.Proofs.Store.Custody

/-!
# What is called on behalf of a value

Making a combinator gets its state and takes the iterators of its sources.  Releasing it gives back
what was taken, and then the state.  An iterator that is its own iterator is neither taken nor
given, and advancing an iterator calls leaves only.

## Main definitions

* `Compiled.taken`, `Compiled.given` — the calls that make an iterator of a value and end it.
* `Compiled.opening`, `Compiled.closing` — the calls that make a combinator and release it.
* `Compiled.owed` — the iterators that have to be ended, with the routines that end them.
* `Compiled.ServesArrays` — the routines of arrays serve arrays only.
* `Compiled.Orderly` — only what was made is ended, and by a routine that can end it.
* `Store.Effect` — what is noted and counted.
* `Ran` — what is left of a run.

## Main results

* `next_effect` — advancing an iterator calls leaves only.
-/

namespace PullIter

open Store (Frame Only)

/-! ### Calls -/

/-- The call advances an iterator. -/
def Call.isNext : Call → Bool
  | .next .. => true
  | .getiter .. | .release .. | .alloc .. | .free .. => false

namespace Kind

/-- The symbol that ends what `getiter` made of a value.  There is none for an alias. -/
def madeReleaseSymbol? : Kind → Option String
  | external (.iterable _ _ _ (.iterator _ _ _ release)) => release
  | _ => none

/-- The symbols of a leaf that may be called.  Nobody releases an alias. -/
def calledSymbols : Kind → List String
  | external (.iterator _ _ next _) => [next]
  | kind => kind.symbols

/-- The symbols that make and advance an iterator of a leaf. -/
def drivingSymbols : Kind → List String
  | external (.iterator _ _ next _) => [next]
  | external (.iterable _ _ getiter (.iterator _ _ next _)) => [getiter, next]
  | external (.iterable _ _ getiter (.iterable ..)) => [getiter]
  | generator _ _ resume => [resume]
  | enumerate _ | zip _ => []

/-- The leaves of a source are leaves of the combinator. -/
theorem leafKinds_subset {kind source : Kind} (h : source ∈ kind.sources) :
    source.leafKinds ⊆ kind.leafKinds := by
  cases kind with
  | enumerate inner =>
    rw [List.mem_singleton.mp h, leafKinds]
    exact List.Subset.refl _
  | zip kinds =>
    rw [leafKinds, leafKindsList_eq]
    exact fun leaf hm => List.mem_flatMap_of_mem h hm
  | generator => cases h
  | external => cases h

/-- The state record of a combinator. -/
def stateLayout (kind : Kind) : Layout :=
  match kind with
  | enumerate _ => Entry.enumerateState
  | zip sources => Entry.zipState sources.length
  | generator .. | external _ => .struct 0 1 []

/-- What a source counts for among the iterators over arrays. -/
def arrayCount (kind : Kind) : Int := if kind = array then 1 else 0

/-- The number of arrays among some kinds. -/
def arrayCounts : List Kind → Int
  | [] => 0
  | kind :: kinds => arrayCount kind + arrayCounts kinds

end Kind

namespace Compiled

/-- The calls that make an iterator of a value of a kind. -/
def taken (unit : Compiled) (kind : Kind) (value iterator : UInt64) : List Call :=
  match kind.getiterSymbol?.bind unit.decls.provider? with
  | some provider => [.getiter provider value iterator]
  | none => []

/-- The calls that end what was made of a value of a kind. -/
def given (unit : Compiled) (kind : Kind) (iterator : UInt64) : List Call :=
  match kind.madeReleaseSymbol?.bind unit.decls.provider? with
  | some provider => [.release provider iterator]
  | none => []

/-- The iterator that was made of a value of a kind, with the routine that has to end it, if it has
to be ended. -/
def owed (unit : Compiled) (kind : Kind) (iterator : UInt64) : List (Provider × UInt64) :=
  match kind.madeReleaseSymbol?.bind unit.decls.provider? with
  | some provider => [(provider, iterator)]
  | none => []

/-- The calls that make iterators of the sources of a combinator, in order. -/
def takenAll (unit : Compiled) : List Kind → List UInt64 → List UInt64 → List Call
  | kind :: kinds, value :: values, iterator :: iterators =>
    unit.taken kind value iterator ++ unit.takenAll kinds values iterators
  | _, _, _ => []

/-- The calls that end the iterators of the sources of a combinator, in order. -/
def givenAll (unit : Compiled) : List Kind → List UInt64 → List Call
  | kind :: kinds, iterator :: iterators =>
    unit.given kind iterator ++ unit.givenAll kinds iterators
  | _, _ => []

/-- The iterators of the sources of a combinator that have to be ended, in order. -/
def owedAll (unit : Compiled) : List Kind → List UInt64 → List (Provider × UInt64)
  | kind :: kinds, iterator :: iterators => unit.owed kind iterator ++ unit.owedAll kinds iterators
  | _, _ => []

/-- The call that gets the state of a combinator. -/
def allocated (kind : Kind) (state : UInt64) : Call :=
  .alloc (.intrinsic .alloc) kind.stateLayout.size kind.stateLayout.align
    AllocKind.combinatorState.tag state

/-- The call that gives the state back. -/
def freed (kind : Kind) (state : UInt64) : Call :=
  .free (.intrinsic .free) state kind.stateLayout.size kind.stateLayout.align
    AllocKind.combinatorState.tag

/-- The calls that make a combinator.  An enumerate takes the iterator of its source before it gets
its state, a zip its state before the iterators of its sources. -/
def opening (unit : Compiled) (kind : Kind) (operands iterators : List UInt64) (state : UInt64) :
    List Call :=
  match kind with
  | .enumerate _ => unit.takenAll kind.sources operands iterators ++ [allocated kind state]
  | _ => allocated kind state :: unit.takenAll kind.sources operands iterators

/-- The calls that release a combinator. -/
def closing (unit : Compiled) (kind : Kind) (iterators : List UInt64) (state : UInt64) :
    List Call :=
  unit.givenAll kind.sources iterators ++ [freed kind state]

/-- No routine of arrays makes or ends the leaf, unless it is an array. -/
def ServesLeaf (unit : Compiled) (leaf : Kind) : Prop :=
  leaf = .array ∨ ∀ symbol ∈ leaf.calledSymbols, ∀ provider,
    unit.decls.provider? symbol = some provider →
    provider ≠ .intrinsic .arrayGetiter ∧ provider ≠ .intrinsic .arrayRelease

/-- The routines of arrays serve arrays only: no other leaf is made or ended by them. -/
def ServesArrays (unit : Compiled) (kind : Kind) : Prop :=
  ∀ leaf ∈ kind.leafKinds, unit.ServesLeaf leaf

theorem ServesArrays.sources {unit : Compiled} {kind : Kind} (h : unit.ServesArrays kind) :
    ∀ source ∈ kind.sources, unit.ServesArrays source :=
  fun _ hm leaf hleaf => h leaf (Kind.leafKinds_subset hm hleaf)

/-- A leaf of which nothing is ended but what was made: advancing it and making iterators of it ends
no object, and what ends an iterator belongs to what made it. -/
structure OrderlyLeaf (unit : Compiled) (leaf : Kind) : Prop where
  spares : ∀ symbol ∈ leaf.drivingSymbols, ∀ provider,
    unit.decls.provider? symbol = some provider → provider.ends = false
  undoes : ∀ {getiter release}, leaf.getiterSymbol?.bind unit.decls.provider? = some getiter →
    leaf.madeReleaseSymbol?.bind unit.decls.provider? = some release →
      ∃ script, getiter.makes? = some script ∧ release.undoes script = true

/-- All leaves of a kind are orderly. -/
def Orderly (unit : Compiled) (kind : Kind) : Prop := ∀ leaf ∈ kind.leafKinds, unit.OrderlyLeaf leaf

end Compiled

/-! ### Effects -/

namespace Store

/-- What is noted and counted: some calls, a change in the number of live states, and, as long as
the routines of arrays serve arrays only, a change in the number of live iterators over arrays. -/
structure Effect (serves : Prop) (calls : List Call) (states arrays : Int) (before after : Store) :
    Prop where
  custody : Custody calls before after
  calls : after.calls = calls.reverse ++ before.calls
  states : after.counters.combinatorState = before.counters.combinatorState + states
  arrays : serves → after.counters.arrayIter = before.counters.arrayIter + arrays

namespace Effect

variable {serves serves' : Prop} {calls calls' : List Call} {states states' arrays arrays' : Int}
  {before mid after : Store}

theorem refl (serves : Prop) (store : Store) : Effect serves [] 0 0 store store :=
  ⟨.refl store, rfl, (Int.add_zero _).symm, fun _ => (Int.add_zero _).symm⟩

theorem trans (h : Effect serves calls states arrays before mid)
    (h' : Effect serves calls' states' arrays' mid after) :
    Effect serves (calls ++ calls') (states + states') (arrays + arrays') before after where
  custody := h.custody.trans h'.custody
  calls := by rw [h'.calls, h.calls, List.reverse_append, List.append_assoc]
  states := by rw [h'.states, h.states, Int.add_assoc]
  arrays hs := by rw [h'.arrays hs, h.arrays hs, Int.add_assoc]

theorem mono (h : Effect serves calls states arrays before after) (hs : serves' → serves) :
    Effect serves' calls states arrays before after :=
  ⟨h.custody, h.calls, h.states, fun hs' => h.arrays (hs hs')⟩

/-- What notes and counts nothing, and ends nothing. -/
theorem of_keeps (hcalls : after.calls = before.calls) (hcounters : after.counters = before.counters)
    (hkeeps : Keeps before after) (hunused : before.unused ≤ after.unused) :
    Effect serves [] 0 0 before after := by
  refine ⟨.of_keeps hkeeps hunused, hcalls, ?_, fun _ => ?_⟩
  · rw [hcounters, Int.add_zero]
  · rw [hcounters, Int.add_zero]

end Effect

/-- Noting a call changes no object. -/
theorem Touches.frame_called {provider : Provider} {address : UInt64} {before after : Store}
    (h : Touches provider address before after) (call : Call) :
    Frame (Only address) before (after.called call) :=
  h.frame.trans (frame_of_cells_eq rfl rfl)

/-- A routine that is called for an object and noted. -/
theorem Touches.effect {provider : Provider} {address : UInt64} {before after : Store}
    (h : Touches provider address before after) {serves : Prop} {call : Call} {arrays : Int}
    (harrays : serves → after.counters.arrayIter = before.counters.arrayIter + arrays)
    (hcustody : Custody [call] before (after.called call)) :
    Effect serves [call] 0 arrays before (after.called call) where
  custody := hcustody
  calls := congrArg (call :: ·) h.calls
  states := by
    rw [Int.add_zero]
    exact h.states
  arrays := harrays

/-- A routine that is no routine of arrays. -/
theorem Touches.arrays_eq {provider : Provider} {address : UInt64} {before after : Store}
    (h : Touches provider address before after) (hget : provider ≠ .intrinsic .arrayGetiter)
    (hrel : provider ≠ .intrinsic .arrayRelease) :
    after.counters.arrayIter = before.counters.arrayIter + 0 := by
  rw [Int.add_zero]
  exact h.arrayIters hget hrel

end Store

/-- What is left of a run: the states that live then, what words are used as, and what was noted
and counted. -/
structure Ran (made made' : List Combinator) (serves : Prop) (calls : List Call)
    (states arrays : Int) (before after : Store) : Prop where
  typed : Typed made' after
  points : ∀ {kind word}, Points made before kind word → Points made' after kind word
  effect : Store.Effect serves calls states arrays before after

namespace Ran

variable {made made' made'' : List Combinator} {serves serves' : Prop} {calls calls' : List Call}
  {states states' arrays arrays' : Int} {before mid after : Store}

theorem refl (h : Typed made before) (serves : Prop) : Ran made made serves [] 0 0 before before :=
  ⟨h, id, .refl serves before⟩

theorem trans (h : Ran made made' serves calls states arrays before mid)
    (h' : Ran made' made'' serves calls' states' arrays' mid after) :
    Ran made made'' serves (calls ++ calls') (states + states') (arrays + arrays') before after :=
  ⟨h'.typed, fun hp => h'.points (h.points hp), h.effect.trans h'.effect⟩

theorem mono (h : Ran made made' serves calls states arrays before after)
    (hs : serves' → serves) : Ran made made' serves' calls states arrays before after :=
  ⟨h.typed, h.points, h.effect.mono hs⟩

/-- A run that leaves the states alone. -/
theorem of_frame (h : Typed made before) {own : UInt64 → Prop} (hf : Frame own before after)
    (hown : ∀ address, own address → Spared made address)
    (he : Store.Effect serves calls states arrays before after) :
    Ran made made serves calls states arrays before after :=
  ⟨h.frame hf hown, fun hp => hp.frame hf, he⟩

end Ran

variable {unit : Compiled} {made : List Combinator} {store after : Store}

namespace Exec

/-! ### Advancing an iterator -/

/-- What is left after an iterator was advanced, that has some leaves: leaves were called, and they
ended no object if they are orderly. -/
def Advanced (unit : Compiled) (made : List Combinator) (leaves : List Kind) (store after : Store) :
    Prop :=
  ∃ calls, (∀ call ∈ calls, call.isNext = true) ∧
    ((∀ leaf ∈ leaves, unit.OrderlyLeaf leaf) → ∀ call ∈ calls, call.ended? = none) ∧
    Ran made made (∀ leaf ∈ leaves, unit.ServesLeaf leaf) calls 0 0 store after

namespace Advanced

variable {leaves leaves' : List Kind}

/-- Whoever calls nothing. -/
theorem of_ran (h : Ran made made (∀ leaf ∈ leaves, unit.ServesLeaf leaf) [] 0 0 store after) :
    Advanced unit made leaves store after :=
  ⟨[], fun _ hm => absurd hm List.not_mem_nil, fun _ _ hm => absurd hm List.not_mem_nil, h⟩

theorem refl (h : Typed made store) (leaves : List Kind) : Advanced unit made leaves store store :=
  of_ran (.refl h _)

theorem typed (h : Advanced unit made leaves store after) : Typed made after := by
  obtain ⟨_, _, _, hran⟩ := h
  exact hran.typed

theorem points (h : Advanced unit made leaves store after) {kind : Kind} {word : UInt64}
    (hp : Points made store kind word) : Points made after kind word := by
  obtain ⟨_, _, _, hran⟩ := h
  exact hran.points hp

theorem mono (h : Advanced unit made leaves store after) (hsub : leaves ⊆ leaves') :
    Advanced unit made leaves' store after := by
  obtain ⟨calls, hnext, hspares, hran⟩ := h
  exact ⟨calls, hnext, fun horderly => hspares fun leaf hm => horderly leaf (hsub hm),
    hran.mono fun serves leaf hm => serves leaf (hsub hm)⟩

theorem trans {mid : Store} (h : Advanced unit made leaves store mid)
    (h' : Advanced unit made leaves mid after) : Advanced unit made leaves store after := by
  obtain ⟨calls, hnext, hspares, hran⟩ := h
  obtain ⟨calls', hnext', hspares', hran'⟩ := h'
  exact ⟨calls ++ calls', List.forall_mem_append.mpr ⟨hnext, hnext'⟩,
    fun horderly => List.forall_mem_append.mpr ⟨hspares horderly, hspares' horderly⟩,
    hran.trans hran'⟩

end Advanced

theorem next_leaf_effect {kind : Kind} {symbol : String} (hk : kind.isCombinator = false)
    (hsymbol : symbol ∈ kind.calledSymbols) (hdriving : symbol ∈ kind.drivingSymbols)
    (harray : kind = .array → symbol = Intrinsic.arrayNext.name) (hr : unit.RunsRuntime)
    {iterator : UInt64} {step : Step} (ht : Typed made store)
    (hp : Points made store kind iterator)
    (hs : unit.provided.next symbol iterator store = .ok step) :
    Advanced unit made [kind] store step.store := by
  simp only [Compiled.provided] at hs
  split at hs
  · cases hs
  · next provider hprov =>
    obtain ⟨inner, hn, -, -, hstore⟩ := linkedNext_eq_ok hs
    have htouch := Provider.touches_next hn
    have hcustody : Store.Custody [.next provider iterator inner.status] store
        (inner.store.called (.next provider iterator inner.status)) :=
      htouch.custody rfl fun hends => by rw [Call.ended?, if_pos hends]
    rw [hstore]
    refine ⟨[.next provider iterator inner.status], fun call hm => ?_, fun horderly call hm => ?_,
      .of_frame ht (htouch.frame_called _) (fun other ho => ?_)
        (htouch.effect (fun serves => ?_) hcustody)⟩
    · rw [List.mem_singleton.mp hm]
      rfl
    · rw [List.mem_singleton.mp hm]
      have hspares := (horderly kind (List.mem_singleton_self _)).spares symbol hdriving _ hprov
      rw [Call.ended?, hspares]
      rfl
    · rw [show other = iterator from ho]
      exact (hp.of_leaf hk).1
    · rcases serves kind (List.mem_singleton_self _) with heq | hother
      · rw [harray heq, hr .arrayNext] at hprov
        cases hprov
        exact htouch.arrays_eq (by decide) (by decide)
      · obtain ⟨hget, hrel⟩ := hother symbol hsymbol provider hprov
        exact htouch.arrays_eq hget hrel

/-- Built-in objects are served by the routines that are theirs. -/
theorem servesArrays_of_builtIn (hr : unit.RunsRuntime) {kind : Kind}
    (h : ∀ leaf ∈ kind.leafKinds, BuiltIn leaf) : unit.ServesArrays kind := by
  intro leaf hm
  rcases h leaf hm with rfl | rfl | ⟨name, rfl⟩
  · exact .inl rfl
  · refine .inr fun symbol hs provider hprov => ?_
    obtain rfl : symbol = Intrinsic.rangeNext.name := List.mem_singleton.mp hs
    rw [hr .rangeNext] at hprov
    cases hprov
    exact ⟨by decide, by decide⟩
  · refine .inr fun symbol hs provider hprov => ?_
    obtain rfl : symbol = Intrinsic.generatorResume.name := List.mem_singleton.mp hs
    rw [hr .generatorResume] at hprov
    cases hprov
    exact ⟨by decide, by decide⟩

mutual

/-- **Advancing an iterator** calls leaves only, and the states stay. -/
theorem next_effect (hr : unit.RunsRuntime) : ∀ (kind : Kind) {iterator : UInt64} {store : Store}
    {step : Step}, Typed made store → Points made store kind iterator →
    next unit.provided kind iterator store = .ok step →
    Advanced unit made kind.leafKinds store step.store
  | .enumerate source, state, store, step, ht, hp, hs => by
    obtain ⟨block, words, inner, hg, hn, rfl⟩ := exists_of_next_enumerate hs
    obtain ⟨value, hm, hkind, rfl⟩ := hp.of_get? rfl (by rw [hg]; exact Option.some_ne_none _)
    have hsource : value.kind.sources[0]? = some source := by
      rw [hkind]
      rfl
    have hpoints := (ht.peek_source hm hg hsource).2
    rw [hkind] at hpoints
    -- the count moves, and then the source is asked
    have hcounted := ht.count hm hkind hg (words.peek Layout.countIndex + 1)
    have hf : Frame (Only value.state) store (store.set value.state (.block block
        (words.poke Layout.countIndex (words.peek Layout.countIndex + 1)))) :=
      Store.frame_set _ (Store.only_self _)
    have hmoved : Advanced unit made source.leafKinds store (store.set value.state
        (.block block (words.poke Layout.countIndex (words.peek Layout.countIndex + 1)))) :=
      .of_ran ⟨hcounted, fun hp => hp.frame hf,
        .of_keeps rfl rfl (Store.keeps_set hg rfl) hf.unused⟩
    rw [Kind.leafKinds]
    have hnext : Advanced unit made source.leafKinds _ inner.store :=
      next_effect hr source hcounted (hpoints.frame hf) hn
    exact hmoved.trans hnext
  | .zip [], state, store, step, ht, hp, hs => by
    rw [next_zip_nil] at hs
    cases hs
    exact .refl ht _
  | .zip (source :: sources), state, store, step, ht, hp, hs => by
    rw [next_zip_cons] at hs
    cases hg : store.get? state with
    | none =>
      cases hslots : slots (.zip (source :: sources)) with
      | nil =>
        rw [hslots, nextRound_noSlots] at hs
        cases hs
        exact .refl ht _
      | cons slot slots =>
        rw [hslots, nextRound, Store.peek, hg] at hs
        cases hs
    | some cell =>
      obtain ⟨value, hm, hkind, rfl⟩ := hp.of_get? rfl (by rw [hg]; exact Option.some_ne_none _)
      rw [Kind.leafKinds]
      refine nextRound_effect hr (source :: sources) ht hm hkind (fun i kind hi => ?_) hs
      rw [Nat.zero_add]
      exact hi
  | .generator name yields resume, handle, store, step, ht, hp, hs => by
    rw [next_generator] at hs
    rw [Kind.leafKinds]
    exact next_leaf_effect rfl (List.mem_singleton_self _) (List.mem_singleton_self _)
      (fun heq => by cases heq) hr ht hp hs
  | .external (.iterator name yields symbol release), iterator, store, step, ht, hp, hs => by
    rw [next] at hs
    rw [Kind.leafKinds]
    exact next_leaf_effect rfl (List.mem_singleton_self _) (List.mem_singleton_self _)
      (fun heq => by cases heq) hr ht hp hs
  | .external (.iterable name yields getiter (.iterator iname iyields symbol release)), iterator,
      store, step, ht, hp, hs => by
    rw [next] at hs
    rw [Kind.leafKinds]
    refine next_leaf_effect rfl (List.mem_cons_of_mem _ (List.mem_cons_self ..))
      (List.mem_cons_of_mem _ (List.mem_cons_self ..)) (fun heq => ?_) hr ht hp hs
    cases heq
    rfl
  | .external (.iterable _ _ _ (.iterable ..)), iterator, store, step, ht, hp, hs => by
    rw [next] at hs
    cases hs

/-- So does a round over the sources of a zip from an index on. -/
theorem nextRound_effect (hr : unit.RunsRuntime) : ∀ (kinds : List Kind) {value : Combinator}
    {all : List Kind} {index : Nat} {slots : List Nat} {valid : Bool} {store : Store} {step : Step},
    Typed made store → value ∈ made → value.kind = .zip all →
    (∀ (i : Nat) (kind : Kind), kinds[i]? = some kind → all[index + i]? = some kind) →
    nextRound unit.provided kinds value.state index slots valid store = .ok step →
    Advanced unit made (Kind.leafKindsList kinds) store step.store
  | [], value, all, index, slots, valid, store, step, ht, hm, hkind, hall, hs => by
    rw [nextRound_nil] at hs
    cases hs
    exact .refl ht _
  | kind :: kinds, value, all, index, [], valid, store, step, ht, hm, hkind, hall, hs => by
    rw [nextRound_noSlots] at hs
    cases hs
    exact .refl ht _
  | kind :: kinds, value, all, index, slot :: slots, valid, store, step, ht, hm, hkind, hall, hs => by
    obtain ⟨block, words, hg, -⟩ := ht.found value hm
    have hsource : value.kind.sources[index]? = some kind := by
      rw [hkind]
      exact hall 0 kind rfl
    have hpoints := (ht.peek_source hm hg hsource).2
    rw [hkind] at hpoints
    obtain ⟨iterator, first, hpeek, hn, hcases⟩ := exists_of_nextRound_cons hs
    rw [Store.peek_of_get? hg] at hpeek
    cases hpeek
    rw [Kind.leafKindsList]
    have hfirst := (next_effect hr kind ht hpoints hn).mono
      (List.subset_append_left _ (Kind.leafKindsList kinds))
    rcases hcases with ⟨-, rfl⟩ | ⟨-, rest, hrest, rfl⟩
    · exact hfirst
    · have hbehind := nextRound_effect hr kinds hfirst.typed hm hkind (getElem?_behind hall) hrest
      exact hfirst.trans (hbehind.mono (List.subset_append_right kind.leafKinds _))

end

end Exec

end PullIter
