import PullIter.Proofs.Host.Loop
import PullIter.Proofs.Ownership.Operands
import PullIter.Proofs.Ownership.Sources

/-!
# The life of a combinator and of an iterator

Making a combinator stores the iterators of its sources into a new state.  A loop takes one
iterator and gives it back, however it ended, and a handle advances the iterator that it holds.

## Main definitions

* `Offered` — values that are there to be the sources of a combinator.
* `Filled` — iterators that were stored into a state.

## Main results

* `construct_effect` — **making a combinator.**
* `forEach_effect` — **running a loop.**
* `step_effect`, `drainWithin_effect` — advancing a handle.
-/

namespace PullIter

namespace Exec

open Store (Frame Only)

variable {unit : Compiled} {made : List Combinator} {store after : Store}

/-! ### Making a combinator -/

/-- Values that are there to be the sources of a combinator from an index on: they are found in its
argument record, and none of them is its state. -/
def Offered (made : List Combinator) (store : Store) (layout : Layout) (record : List UInt8)
    (state : UInt64) (kinds : List Kind) (operands : List UInt64) (index : Nat) : Prop :=
  ∀ (i : Nat) (kind : Kind) (operand : UInt64), kinds[i]? = some kind →
    operands[i]? = some operand → loadArg layout (index + i) record = .ok operand ∧
    Points made store kind operand ∧ state ≠ operand

/-- Iterators that were made of the sources of a combinator and stored into its state from an index
on. -/
structure Filled (unit : Compiled) (made : List Combinator) (state : UInt64) (kinds : List Kind)
    (operands iterators : List UInt64) (index : Nat) (words : Words) (store after : Store) :
    Prop where
  ran : Ran made made (∀ kind ∈ kinds, unit.ServesArrays kind)
    (unit.takenAll kinds operands iterators) 0 (Kind.arrayCounts kinds) store after
  length : iterators.length = kinds.length
  found : ∃ block words', after.get? state = some (.block block words') ∧
    (∀ i < index, words'.peek i = words.peek i) ∧
    ∀ (i : Nat) (iterator : UInt64), iterators[i]? = some iterator →
      words'.peek (index + i) = iterator
  points : ∀ (i : Nat) (kind : Kind) (iterator : UInt64), kinds[i]? = some kind →
    iterators[i]? = some iterator → Points made after kind iterator ∧ state ≠ iterator

/-- What is new is no state that was there before. -/
theorem Got.ne {kind : Kind} {value iterator state : UInt64}
    (h : Got unit made kind value iterator store after) (hne : state ≠ value)
    (hfirst : Store.firstAddress ≤ state.toNat) (hlt : state.toNat < store.unused) :
    state ≠ iterator := by
  intro heq
  rcases h.origin with horigin | ⟨hle, -⟩ | hbelow
  · exact hne (heq.trans horigin)
  · rw [← heq] at hle
    omega
  · rw [← heq] at hbelow
    omega

theorem Got.ran {kind : Kind} {value iterator : UInt64}
    (h : Got unit made kind value iterator store after) (ht : Typed made store)
    (hp : Points made store kind value) :
    Ran made made (unit.ServesArrays kind) (unit.taken kind value iterator) 0 kind.arrayCount store
      after :=
  .of_frame ht h.frame (fun _ ho => touched_spared hp ho) h.effect

/-- Storing a word into what is no state yet. -/
theorem poke_effect {state : UInt64} {block : Block} {old : Words} (ht : Typed made store)
    (hspared : Spared made state) (hg : store.get? state = some (.block block old)) (words : Words)
    (serves : Prop) :
    Ran made made serves [] 0 0 store (store.set state (.block block words)) := by
  have hset : Frame (Only state) store (store.set state (.block block words)) :=
    Store.frame_set _ (Store.only_self _)
  refine .of_frame ht hset (fun other ho => ?_)
    (.of_keeps rfl rfl (Store.keeps_set hg rfl) hset.unused)
  rw [show other = state from ho]
  exact hspared

namespace Filled

variable {state operand iterator : UInt64} {kind : Kind} {kinds : List Kind}
  {operands iterators : List UInt64} {index : Nat} {block : Block} {words : Words} {mid : Store}

theorem nil (ht : Typed made store) (hg : store.get? state = some (.block block words)) :
    Filled unit made state [] operands [] index words store store where
  ran := .refl ht _
  length := rfl
  found := ⟨block, words, hg, fun _ _ => rfl, nofun⟩
  points := nofun

/-- The iterator of the first source, before those of the sources behind it. -/
theorem cons (hfirst : Ran made made (unit.ServesArrays kind) (unit.taken kind operand iterator) 0
      kind.arrayCount store mid)
    (hp : Points made mid kind iterator) (hne : state ≠ iterator)
    (h : Filled unit made state kinds operands iterators (index + 1) (words.poke index iterator) mid
      after) :
    Filled unit made state (kind :: kinds) (operand :: operands) (iterator :: iterators) index words
      store after where
  ran := by
    have hbefore := hfirst.mono fun serves : ∀ source ∈ kind :: kinds, unit.ServesArrays source =>
      serves kind (List.mem_cons_self ..)
    have hbehind := h.ran.mono fun serves : ∀ source ∈ kind :: kinds, unit.ServesArrays source =>
      fun source hs => serves source (List.mem_cons_of_mem _ hs)
    exact hbefore.trans hbehind
  length := congrArg (· + 1) h.length
  found := by
    obtain ⟨block, words', hlast, hsame, hwords⟩ := h.found
    obtain ⟨hword, hbefore⟩ := peek_of_poked hsame
    refine ⟨block, words', hlast, hbefore, fun i found hi => ?_⟩
    cases i with
    | zero =>
      cases hi
      exact hword
    | succ i =>
      rw [Nat.add_comm i 1, ← Nat.add_assoc]
      exact hwords i found hi
  points i source found hi hf := by
    cases i with
    | zero =>
      cases hi
      cases hf
      exact ⟨h.ran.points hp, hne⟩
    | succ i => exact h.points i source found hi hf

end Filled

/-- Storing the iterators of the sources of a zip from an index on. -/
theorem storeSources_effect (hr : unit.RunsRuntime) {layout : Layout} {record : List UInt8}
    {state : UInt64} (hspared : Spared made state) (hfirst : Store.firstAddress ≤ state.toNat) :
    ∀ {kinds : List Kind} {operands : List UInt64} {index : Nat} {block : Block} {words : Words}
      {store : Store}, Typed made store → store.get? state = some (.block block words) →
      operands.length = kinds.length →
      Offered made store layout record state kinds operands index →
      storeSources unit.provided layout record state kinds index store = .ok after →
      ∃ iterators, Filled unit made state kinds operands iterators index words store after := by
  intro kinds
  induction kinds with
  | nil =>
    intro operands index block words store ht hg hlen _ hs
    obtain rfl := List.eq_nil_of_length_eq_zero hlen
    cases hs
    exact ⟨[], .nil ht hg⟩
  | cons kind kinds ih =>
    intro operands index block words store ht hg hlen hoffered hs
    obtain ⟨operand, operands, rfl⟩ := List.exists_cons_of_length_eq_add_one hlen
    obtain ⟨hload, hpoints, hne⟩ := hoffered 0 kind operand rfl rfl
    obtain ⟨found, iterator, mid, stored, hfound, hget, hstored, hs⟩ := exists_of_storeSources_cons hs
    cases hfound.symm.trans hload
    have hgot := getiter_effect hr ht hpoints hget
    have hmid := hgot.ran ht hpoints
    have hiterator := hgot.ne hne hfirst (ht.wellFormed.bounds hg).2
    -- the state is no object that the iterator is made of
    have hcell := hgot.frame.block (fun ho => hne ho.2) hg
    rw [Store.poke_of_get? hcell] at hstored
    cases hstored
    -- storing the iterator is no call and leaves the states alone
    have hpoke := poke_effect hmid.typed hspared hcell (words.poke index iterator)
      (unit.ServesArrays kind)
    have hnext := hmid.trans hpoke
    rw [List.append_nil, Int.add_zero, Int.add_zero] at hnext
    obtain ⟨iterators, hrest⟩ := ih hnext.typed (Store.get?_set_self hcell)
      (Nat.succ.inj hlen) (fun i source value hi hv => by
        obtain ⟨hload, hp, hne⟩ := hoffered (i + 1) source value hi hv
        rw [Nat.add_assoc, Nat.add_comm 1 i]
        exact ⟨hload, hnext.points hp, hne⟩) hs
    exact ⟨iterator :: iterators, .cons hnext (hpoke.points hgot.points) hiterator hrest⟩

/-- Storage for the state of a combinator. -/
theorem alloc_effect (hr : unit.RunsRuntime) (kind : Kind) {state : UInt64} (ht : Typed made store)
    (serves : Prop) (hs : unit.provided.alloc kind.stateLayout store = .ok (state, after)) :
    Ran made made serves [Compiled.allocated kind state] 1 0 store after ∧
      (∃ block, after.get? state = some (.block block [])) ∧ store.unused ≤ state.toNat ∧
      state.toNat < after.unused := by
  rw [Compiled.provided_alloc hr] at hs
  obtain ⟨block, mid, -, hmade, rfl⟩ := Provider.linkedAlloc_eq_ok hs
  have hframe : Frame (fun _ => False) store ((mid.countTag AllocKind.combinatorState.tag 1).called
      (Compiled.allocated kind state)) := hmade.frame.trans (Store.frame_of_cells_eq rfl rfl)
  refine ⟨.of_frame ht hframe (fun _ => False.elim)
    ⟨.called (Nat.le_of_lt (Nat.lt_of_le_of_lt hmade.unused hmade.bound)) rfl
      fun hc _ => hmade.frame.keeps _ _ hc, ?_, ?_, fun _ => ?_⟩,
    ⟨block, hmade.found ht.wellFormed⟩, hmade.unused, hmade.bound⟩
  · exact congrArg (Compiled.allocated kind state :: ·) hmade.calls
  · exact congrArg (fun counters => counters.combinatorState + 1) hmade.counters
  · have hcount := congrArg Counters.arrayIter hmade.counters
    rw [Int.add_zero]
    exact hcount

/-- The words of a state that was made are the iterators of its sources. -/
theorem Ran.make {serves : Prop} {calls : List Call} {states arrays : Int} {value : Combinator}
    (ht : Typed made store) (h : Ran made made serves calls states arrays store after)
    (hunused : store.unused ≤ value.state.toNat) (hfound : value.Found after)
    (hfull : value.iterators.length = value.kind.sources.length)
    (hpoints : ∀ (i : Nat) (source : Kind) (iterator : UInt64),
      value.kind.sources[i]? = some source → value.iterators[i]? = some iterator →
      Points made after source iterator ∧ value.state ≠ iterator) :
    Ran made (value :: made) serves calls states arrays store after where
  typed := by
    refine h.typed.make hfound (ht.spared hunused) hfull hpoints fun other ho iterator hi heq => ?_
    have hlt := ht.iterator_lt ho hi
    rw [← heq] at hlt
    omega
  points := by
    intro kind word hp
    refine (h.points hp).cons fun heq => ?_
    have hlt := ht.lt_unused hp
    rw [← heq] at hlt
    omega
  effect := h.effect

/-- Making an enumerate. -/
theorem construct_enumerate_effect (hr : unit.RunsRuntime) {source : Kind} {args : List Scalar}
    {record : List UInt8} {operand state : UInt64} (ht : Typed made store)
    (hload : loadArg (Layout.enumerateArgs targetPointerBytes args) 0 record = .ok operand)
    (hp : Points made store source operand)
    (hs : construct unit.provided (.enumerate source) args record store = .ok (state, after)) :
    ∃ iterator, Ran made (⟨.enumerate source, state, [iterator]⟩ :: made)
      (unit.ServesArrays (.enumerate source))
      (unit.opening (.enumerate source) [operand] [iterator] state) 1
      (Kind.arrayCounts [source]) store after := by
  obtain ⟨found, start, iterator, mid, empty, counted, hfound, -, hget, halloc, hcount, hstore⟩ :=
    exists_of_construct_enumerate hs
  cases hfound.symm.trans hload
  have hgot := getiter_effect hr ht hp hget
  have htaken := (hgot.ran ht hp).mono fun serves : unit.ServesArrays (.enumerate source) =>
    serves.sources source (List.mem_singleton_self _)
  obtain ⟨hran, ⟨block, hcell⟩, hunused, -⟩ := alloc_effect hr (.enumerate source)
    htaken.typed (unit.ServesArrays (.enumerate source)) halloc
  have hspared := htaken.typed.spared hunused
  have hmade := htaken.trans hran
  -- the count and the source are stored one after the other
  obtain ⟨rfl, rfl, hcell'⟩ := eq_of_poke_enumerate hcell hcount hstore
  have hcounted := poke_effect hmade.typed hspared hcell
    (Words.poke [] Layout.countIndex start.toUInt64) (unit.ServesArrays (.enumerate source))
  have hsource := poke_effect hcounted.typed hspared hcell'
    ((Words.poke [] Layout.countIndex start.toUInt64).poke Layout.sourceIndex iterator)
    (unit.ServesArrays (.enumerate source))
  have hne : state ≠ iterator := by
    intro heq
    have hlt := htaken.typed.lt_unused hgot.points
    rw [← heq] at hlt
    omega
  have hopening : unit.opening (.enumerate source) [operand] [iterator] state =
      unit.taken source operand iterator ++ [Compiled.allocated (.enumerate source) state] := by
    simp only [Compiled.opening, Kind.sources, Compiled.takenAll, List.append_nil]
  have hcounts : Kind.arrayCounts [source] = source.arrayCount := Int.add_zero _
  have hall := (hmade.trans hcounted).trans hsource
  simp only [List.append_nil, Int.add_zero, Int.zero_add] at hall
  refine ⟨iterator, ?_⟩
  rw [hopening, hcounts]
  refine Ran.make ht hall (Nat.le_trans hgot.frame.unused hunused)
    ⟨block, _, Store.get?_set_self hcell', fun i found hi => ?_⟩ rfl fun i kind found hi hf => ?_
  · obtain ⟨rfl, rfl⟩ : i = 0 ∧ iterator = found := by
      cases i with
      | zero => exact ⟨rfl, Option.some.inj hi⟩
      | succ i => cases hi
    exact Words.peek_poke_self ..
  · cases i with
    | zero =>
      cases hi
      cases hf
      exact ⟨(hran.trans (hcounted.trans hsource)).points hgot.points, hne⟩
    | succ i => cases hi

/-- Making a zip. -/
theorem construct_zip_effect (hr : unit.RunsRuntime) {sources : List Kind} {args : List Scalar}
    {record : List UInt8} {operands : List UInt64} {state : UInt64} (ht : Typed made store)
    (hlen : operands.length = sources.length)
    (hoffered : ∀ (i : Nat) (source : Kind) (operand : UInt64), sources[i]? = some source →
      operands[i]? = some operand →
      loadArg (Layout.zipArgs targetPointerBytes args) i record = .ok operand ∧
      Points made store source operand)
    (hs : construct unit.provided (.zip sources) args record store = .ok (state, after)) :
    ∃ iterators, Ran made (⟨.zip sources, state, iterators⟩ :: made)
      (unit.ServesArrays (.zip sources)) (unit.opening (.zip sources) operands iterators state) 1
      (Kind.arrayCounts sources) store after := by
  obtain ⟨empty, halloc, hstored⟩ := exists_of_construct_zip hs
  obtain ⟨hran, ⟨block, hcell⟩, hunused, hlt⟩ := alloc_effect hr (.zip sources) ht
    (unit.ServesArrays (.zip sources)) halloc
  obtain ⟨iterators, hfilled⟩ := storeSources_effect hr (ht.spared hunused)
    (Nat.le_trans ht.wellFormed.first hunused) hran.typed hcell hlen
    (fun i source operand hi ho => by
      obtain ⟨hload, hp⟩ := hoffered i source operand hi ho
      refine ⟨by rw [Nat.zero_add]; exact hload, hran.points hp, fun heq => ?_⟩
      have hbelow := ht.lt_unused hp
      rw [← heq] at hbelow
      omega) hstored
  obtain ⟨block', words, hfound, -, hwords⟩ := hfilled.found
  have hall := hran.trans (hfilled.ran.mono Compiled.ServesArrays.sources)
  rw [Int.add_zero, Int.zero_add] at hall
  refine ⟨iterators, Ran.make ht hall hunused ⟨block', words, hfound, fun i iterator hi => ?_⟩
    hfilled.length hfilled.points⟩
  have hword := hwords i iterator hi
  rwa [Nat.zero_add] at hword

/-- **Making a combinator** takes iterators of its sources and keeps them in its state. -/
theorem construct_effect (hr : unit.RunsRuntime) {kind : Kind} {args : List Scalar} {layout : Layout}
    {record : List UInt8} {operands : List UInt64} {state : UInt64} (ht : Typed made store)
    (hlayout : Entry.argsLayout? kind args = some layout)
    (hlen : operands.length = kind.sources.length)
    (hoffered : ∀ (i : Nat) (source : Kind) (operand : UInt64), kind.sources[i]? = some source →
      operands[i]? = some operand → loadArg layout i record = .ok operand ∧
      Points made store source operand)
    (hs : construct unit.provided kind args record store = .ok (state, after)) :
    ∃ iterators, Ran made (⟨kind, state, iterators⟩ :: made) (unit.ServesArrays kind)
      (unit.opening kind operands iterators state) 1 (Kind.arrayCounts kind.sources) store after := by
  cases kind with
  | enumerate source =>
    cases hlayout
    obtain ⟨operand, rfl⟩ := List.length_eq_one_iff.mp hlen
    obtain ⟨hload, hp⟩ := hoffered 0 source operand rfl rfl
    obtain ⟨iterator, hran⟩ := construct_enumerate_effect hr ht hload hp hs
    exact ⟨[iterator], hran⟩
  | zip sources =>
    cases hlayout
    exact construct_zip_effect hr ht hlen hoffered hs
  | generator => cases hs
  | external => cases hs

/-! ### Loops -/

/-- The rounds of a loop advance its iterator, however they end. -/
theorem rounds_effect {σ : Type} (hr : unit.RunsRuntime) {kind : Kind} {sink : Sink σ}
    {iterator : UInt64} (fuel : Nat) : ∀ {buffer : List UInt8} {seen seen' : σ} {status : Status}
      {store : Store}, Typed made store → Points made store kind iterator →
      rounds unit.provided kind sink iterator fuel buffer seen store = .ok (status, seen', after) →
      Advanced unit made kind.leafKinds store after := by
  induction fuel with
  | zero => intro buffer seen seen' status store _ _ h; cases h
  | succ fuel ih =>
    intro buffer seen seen' status store ht hp h
    rw [rounds] at h
    cases hn : next unit.provided kind iterator store with
    | error fault => rw [hn] at h; cases h
    | ok step =>
      have hstep := next_effect hr kind ht hp hn
      simp only [hn] at h
      split at h
      · split at h
        · cases h
        · split at h
          · exact hstep.trans (ih hstep.typed (hstep.points hp) h)
          · cases h
            exact hstep
      · split at h
        · cases h
          exact hstep
        · cases h
          exact hstep

/-- **Running a loop** gives back the iterator that it took, however it ended. -/
theorem forEach_effect {σ : Type} (hr : unit.RunsRuntime) {kind : Kind} {sink : Sink σ}
    {slot : List UInt8} {value : UInt64} {seen seen' : σ} {status : Status} (ht : Typed made store)
    (hp : Points made store kind value)
    (h : forEach unit.provided kind sink slot value seen store = .ok (status, seen', after)) :
    ∃ iterator used, (∀ call ∈ used, call.isNext = true) ∧
      (unit.Orderly kind → ∀ call ∈ used, call.ended? = none) ∧
      Ran made made (unit.ServesArrays kind)
        (unit.taken kind value iterator ++ used ++ unit.given kind iterator) 0 0 store after := by
  rw [forEach] at h
  split at h
  · cases h
  · next iterator mid hget =>
    have hgot := getiter_effect hr ht hp hget
    have htaken := hgot.ran ht hp
    split at h
    · cases h
    · next last hrounds =>
      obtain ⟨used, hnext, hspares, hused⟩ := rounds_effect hr _ htaken.typed hgot.points hrounds
      cases hrel : releaseMade unit.provided kind iterator last with
      | error fault => rw [hrel] at h; cases h
      | ok done =>
        rw [hrel] at h
        cases h
        have hgiven := ran_releaseMade hr hused.typed (hused.points hgot.points) hrel
        have hall := (htaken.trans hused).trans hgiven
        have hcount : kind.arrayCount + 0 + -kind.arrayCount = 0 := by omega
        rw [hcount] at hall
        exact ⟨iterator, used, hnext, hspares, hall⟩

end Exec

/-! ### Handles -/

namespace Handle.Drives

variable {unit : Compiled} {made : List Combinator} {kind : Kind} {handle last : Handle}
  {store after : Store}

/-- A step of a handle advances its iterator. -/
theorem step_effect (h : handle.Drives unit kind) (hr : unit.RunsRuntime) (ht : Typed made store)
    (hp : Points made store kind handle.iterator) {outcome : Outcome}
    (hs : handle.step unit store = .ok (outcome, last, after)) :
    Exec.Advanced unit made kind.leafKinds store after := by
  rw [Handle.step, h.next] at hs
  cases hn : Exec.next unit.provided kind handle.iterator store with
  | error fault => rw [hn] at hs; cases hs
  | ok step =>
    have hstep := Exec.next_effect hr kind ht hp hn
    simp only [hn] at hs
    split at hs
    · cases hs; exact hstep
    · cases hs; exact hstep
    · split at hs
      · cases hs
      · cases hs
      · cases hs; exact hstep

/-- So does a drain. -/
theorem drainWithin_effect (hr : unit.RunsRuntime) (fuel : Nat) :
    ∀ {handle : Handle} {store : Store} {values : List Value} {ending : LoopExit},
      handle.Drives unit kind → Typed made store → Points made store kind handle.iterator →
      handle.drainWithin unit fuel store = .ok ((values, ending), last, after) →
      Exec.Advanced unit made kind.leafKinds store after := by
  induction fuel with
  | zero => intro handle store values ending _ _ _ hs; cases hs
  | succ fuel ih =>
    intro handle store values ending h ht hp hs
    rw [Handle.drainWithin] at hs
    cases hstep : handle.step unit store with
    | error fault => rw [hstep] at hs; cases hs
    | ok result =>
      obtain ⟨outcome, next, mid⟩ := result
      have hmid := h.step_effect hr ht hp hstep
      obtain ⟨hnext, hiterator⟩ := h.of_step hstep
      rw [hstep] at hs
      cases outcome with
      | valid value =>
        simp only at hs
        cases hrest : next.drainWithin unit fuel mid with
        | error fault => rw [hrest] at hs; cases hs
        | ok rest =>
          obtain ⟨⟨rvalues, rending⟩, rlast, rafter⟩ := rest
          rw [hrest] at hs
          cases hs
          -- the handle goes on with the same iterator, which is still there
          have hbehind := ih hnext hmid.typed (by rw [hiterator]; exact hmid.points hp) hrest
          exact hmid.trans hbehind
      | exhausted => cases hs; exact hmid
      | failure code => cases hs; exact hmid

end Handle.Drives

end PullIter
