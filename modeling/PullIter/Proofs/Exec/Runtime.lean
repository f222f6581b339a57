import PullIter.Proofs.Exec.Coverage

/-!
# Built-in objects

Where no registered symbol overrides a built-in one, the symbols of arrays, ranges and coroutines
stand for the built-in routines.  These store a whole value whenever they produce one.

## Main definitions

* `Compiled.RunsRuntime` — the built-in symbols stand for the built-in routines.
* `Kind.leafKinds` — the leaves of a kind.

## Main results

* `runsRuntime_of_finished` — what is not overridden is built in.
* `next_array`, `next_range`, `next_coroutine` — how built-in objects are advanced.
* `covers_leafCalls_of_builtIn` — built-in leaves store whole values.
-/

namespace PullIter

namespace Compiled

/-- The built-in symbols stand for the built-in routines. -/
def RunsRuntime (unit : Compiled) : Prop :=
  ∀ routine : Intrinsic, unit.decls.provider? routine.name = some (.intrinsic routine)

theorem lookup_ofIntrinsics (routine : Intrinsic) :
    Provider.ofIntrinsics.lookup routine.name = some (.intrinsic routine) := by
  cases routine <;> decide

/-- **What is not overridden is built in.** -/
theorem runsRuntime_of_finished {unit : Compiled} {options : Options}
    {externals : List (String × Provider)} {requests : List Request}
    (h : unit.Finished options externals requests)
    (hext : ∀ external ∈ externals, ∀ routine : Intrinsic, external.1 ≠ routine.name) :
    unit.RunsRuntime := by
  intro routine
  unfold Declarations.provider?
  rw [h.linkable, List.lookup_append]
  have hnone : externals.reverse.lookup routine.name = none := by
    rw [List.lookup_eq_none_iff]
    intro external hm
    rw [List.mem_reverse] at hm
    simpa using fun heq => hext external hm routine heq.symm
  rw [hnone, lookup_ofIntrinsics]
  rfl

/-- No lowered body takes the place of a built-in symbol. -/
theorem callsLinked_of_intrinsic {unit : Compiled} {kind : Kind}
    (h : ∀ symbol ∈ kind.symbols, ∃ routine : Intrinsic, symbol = routine.name) :
    unit.CallsLinked kind := by
  intro symbol hs lowered _
  obtain ⟨routine, rfl⟩ := h symbol hs
  exact symbolName_ne_intrinsic lowered.1 routine

variable {unit : Compiled}

theorem provided_next (h : unit.RunsRuntime) (routine : Intrinsic) (iterator : UInt64)
    (store : Store) : unit.provided.next routine.name iterator store =
      (Provider.intrinsic routine).linkedNext iterator store := by
  simp only [provided, h routine]

theorem provided_getiter (h : unit.RunsRuntime) (routine : Intrinsic) (value : UInt64)
    (store : Store) : unit.provided.getiter routine.name value store =
      (Provider.intrinsic routine).linkedGetiter value store := by
  simp only [provided, h routine]

theorem provided_alloc (h : unit.RunsRuntime) (layout : Layout) (store : Store) :
    unit.provided.alloc layout store = (Provider.intrinsic .alloc).linkedAlloc layout store := by
  simp only [provided, h .alloc]

theorem provided_free (h : unit.RunsRuntime) (layout : Layout) (state : UInt64) (store : Store) :
    unit.provided.free layout state store =
      (Provider.intrinsic .free).linkedFree layout state store := by
  simp only [provided, h .free]

/-! ### How built-in objects are advanced -/

theorem next_array (h : unit.RunsRuntime) (iterator : UInt64) (store : Store) :
    Exec.next unit.provided .array iterator store =
      (Provider.intrinsic .arrayNext).linkedNext iterator store := by
  rw [Kind.array, Exec.next, provided_next h]

theorem next_range (h : unit.RunsRuntime) (iterator : UInt64) (store : Store) :
    Exec.next unit.provided .range iterator store =
      (Provider.intrinsic .rangeNext).linkedNext iterator store := by
  rw [Kind.range, Exec.next, provided_next h]

theorem next_coroutine (h : unit.RunsRuntime) (name : String) (handle : UInt64) (store : Store) :
    Exec.next unit.provided (.coroutine name) handle store =
      (Provider.intrinsic .generatorResume).linkedNext handle store := by
  rw [Kind.coroutine, Exec.next_generator, provided_next h]

end Compiled

/-! ### Storage -/

/-- Storage for the state of a combinator is a new block of the size that was asked for, which is
counted and noted. -/
theorem Provider.linkedAlloc_eq_ok {layout : Layout} {state : UInt64} {before after : Store}
    (h : (Provider.intrinsic .alloc).linkedAlloc layout before = .ok (state, after)) :
    ∃ block made, Block.of layout.size layout.align = .ok block ∧
      Store.Made before state (.block block []) made ∧
      after = (made.countTag AllocKind.combinatorState.tag 1).called
        (.alloc (.intrinsic .alloc) layout.size layout.align AllocKind.combinatorState.tag state) := by
  unfold Provider.linkedAlloc at h
  simp only [Provider.alloc, Store.allocBlock] at h
  cases hb : Block.of layout.size layout.align with
  | error fault => rw [hb] at h; cases h
  | ok block =>
    rw [hb] at h
    have hpos := Store.block_pos hb
    cases ha : before.alloc block (.block block []) with
    | error fault => simp only [ha] at h; cases h
    | ok made =>
      simp only [ha] at h
      cases h
      exact ⟨block, made.2, rfl, Store.alloc_spec hpos.1 hpos.2 ha, rfl⟩

/-- Giving the storage back ends the block, which is counted and noted. -/
theorem Provider.linkedFree_eq_ok {layout : Layout} {state : UInt64} {before after : Store}
    (hne : state ≠ 0)
    (h : (Provider.intrinsic .free).linkedFree layout state before = .ok after) :
    after = ((before.erase state).countTag AllocKind.combinatorState.tag (-1)).called
      (.free (.intrinsic .free) state layout.size layout.align AllocKind.combinatorState.tag) := by
  obtain ⟨freed, hfreed, rfl⟩ := Except.exists_of_map_eq_ok h
  rcases Store.freeBlock_eq_ok hfreed with ⟨hzero, -⟩ | rfl
  · exact absurd hzero hne
  · rfl

/-! ### Built-in objects store whole values -/

/-- A step stores one number if it has a value, and otherwise the same or nothing. -/
def Step.StoresWord (step : Step) : Prop :=
  (∃ value, step.writes = [.word value]) ∨ step.status ≠ Status.ok ∧ step.writes = []

namespace Store

theorem storesWord_arrayNext {store : Store} {iterator : UInt64} {step : Step}
    (h : store.arrayNext iterator = .ok step) : step.StoresWord := by
  obtain ⟨_, _, -, ⟨_, _, -, ⟨value, -, rfl⟩ | ⟨-, rfl⟩⟩ | ⟨-, rfl⟩⟩ := arrayNext_cases h
  · exact .inl ⟨value, rfl⟩
  · exact .inr ⟨Exec.stop_ne_ok, rfl⟩
  · exact .inr ⟨Exec.stop_ne_ok, rfl⟩

theorem storesWord_rangeNext {store : Store} {iterator : UInt64} {step : Step}
    (h : store.rangeNext iterator = .ok step) : step.StoresWord := by
  obtain ⟨_, _, _, -, -, -, -, ⟨-, -, -, hwrites⟩ | ⟨-, -, hstop, hwrites⟩⟩ := rangeNext_eq_ok h
  · exact .inl ⟨_, hwrites⟩
  · exact .inr ⟨hstop ▸ Exec.stop_ne_ok, hwrites⟩

/-- A body that returns is never reported as having produced a value. -/
theorem status_ne_ok_of_isFinal {outcome : Resumption} (h : outcome.isFinal = true) :
    outcome.status ≠ Status.ok := by
  cases outcome with
  | yielded value => cases h
  | stopped => exact Exec.stop_ne_ok
  | errored code =>
    unfold Resumption.status
    simp only
    split
    · decide
    · next hc =>
      intro heq
      rw [heq] at hc
      exact hc rfl

theorem storesWord_generatorNext {store : Store} {handle : UInt64} {step : Step}
    (h : store.generatorNext handle = .ok step) : step.StoresWord := by
  obtain ⟨_, outcome, _, -, -, rfl⟩ := generatorNext_eq_ok h
  cases outcome with
  | yielded value => exact .inl ⟨value, rfl⟩
  | stopped => exact .inr ⟨@status_ne_ok_of_isFinal .stopped rfl, rfl⟩
  | errored code => exact .inr ⟨@status_ne_ok_of_isFinal (.errored code) rfl, rfl⟩

end Store

namespace Exec

/-- What a linked routine reports is what the routine itself reports. -/
theorem linkedNext_eq_ok {provider : Provider} {iterator : UInt64} {store : Store} {step : Step}
    (h : provider.linkedNext iterator store = .ok step) :
    ∃ inner, provider.next iterator store = .ok inner ∧ step.status = inner.status ∧
      step.writes = inner.writes ∧
      step.store = inner.store.called (.next provider iterator inner.status) := by
  obtain ⟨inner, hn, rfl⟩ := Except.exists_of_map_eq_ok h
  exact ⟨inner, hn, rfl, rfl, rfl⟩

/-- A linked routine stores what the routine itself stores. -/
theorem storesWord_linkedNext {provider : Provider} {iterator : UInt64} {store : Store}
    {step : Step} (h : provider.linkedNext iterator store = .ok step) :
    ∃ inner, provider.next iterator store = .ok inner ∧ (inner.StoresWord → step.StoresWord) := by
  obtain ⟨inner, hn, hstatus, hwrites, -⟩ := linkedNext_eq_ok h
  refine ⟨inner, hn, fun hword => ?_⟩
  unfold Step.StoresWord
  rw [hstatus, hwrites]
  exact hword

/-- A kind of built-in objects. -/
def BuiltIn (kind : Kind) : Prop :=
  kind = .array ∨ kind = .range ∨ ∃ name, kind = .coroutine name

/-- Built-in objects yield numbers. -/
theorem BuiltIn.yieldLayout {kind : Kind} (hb : BuiltIn kind) :
    Entry.yieldLayout kind = .scalar 8 8 .i64 := by
  rcases hb with rfl | rfl | ⟨name, rfl⟩ <;> rfl

/-- Each routine of a built-in object stores one number at the start. -/
theorem BuiltIn.storesWord {unit : Compiled} (h : unit.RunsRuntime) {kind : Kind}
    (hb : BuiltIn kind) {iterator : UInt64} {store : Store} {step : Step}
    (hs : next unit.provided kind iterator store = .ok step) : step.StoresWord := by
  rcases hb with rfl | rfl | ⟨name, rfl⟩
  · rw [Compiled.next_array h] at hs
    obtain ⟨inner, hn, hword⟩ := storesWord_linkedNext hs
    exact hword (Store.storesWord_arrayNext hn)
  · rw [Compiled.next_range h] at hs
    obtain ⟨inner, hn, hword⟩ := storesWord_linkedNext hs
    exact hword (Store.storesWord_rangeNext hn)
  · rw [Compiled.next_coroutine h] at hs
    obtain ⟨inner, hn, hword⟩ := storesWord_linkedNext hs
    exact hword (Store.storesWord_generatorNext hn)

/-- **Built-in objects store whole values.** -/
theorem covers_of_builtIn {unit : Compiled} (h : unit.RunsRuntime) {call : LeafCall}
    (hb : BuiltIn call.kind) : call.Covers unit.provided := by
  intro step hs hok
  rcases hb.storesWord h hs with ⟨value, hwrites⟩ | ⟨hnot, -⟩
  · rw [hb.yieldLayout, hwrites]
    exact Layout.covers_word value
  · exact absurd hok hnot

end Exec

namespace Kind

mutual

/-- The leaves of a kind, from left to right. -/
def leafKinds : Kind → List Kind
  | .enumerate source => leafKinds source
  | .zip sources => leafKindsList sources
  | .generator name yields resume => [.generator name yields resume]
  | .external ext => [.external ext]

/-- The leaves of some kinds. -/
def leafKindsList : List Kind → List Kind
  | [] => []
  | kind :: kinds => leafKinds kind ++ leafKindsList kinds

end

theorem leafKindsList_eq (kinds : List Kind) : leafKindsList kinds = kinds.flatMap leafKinds := by
  induction kinds with
  | nil => rfl
  | cons kind kinds ih => rw [leafKindsList, ih, List.flatMap_cons]

end Kind

namespace Exec

mutual

/-- A step calls leaves of its kind only. -/
theorem kind_mem_leafKinds (link : Linkage) : ∀ (kind : Kind) (iterator : UInt64) (store : Store),
    ∀ call ∈ leafCalls link kind iterator store, call.kind ∈ kind.leafKinds
  | .enumerate source, iterator, store, call, hc => by
    rw [leafCalls] at hc
    rw [Kind.leafKinds]
    exact kind_mem_leafKinds link source _ _ call hc
  | .zip sources, iterator, store, call, hc => by
    rw [leafCalls] at hc
    rw [Kind.leafKinds]
    exact kind_mem_leafKindsList link sources _ _ _ call hc
  | .generator name yields resume, iterator, store, call, hc => by
    rw [leafCalls] at hc
    rw [Kind.leafKinds, List.mem_singleton.mp hc]
    exact List.mem_singleton_self _
  | .external ext, iterator, store, call, hc => by
    rw [leafCalls] at hc
    rw [Kind.leafKinds, List.mem_singleton.mp hc]
    exact List.mem_singleton_self _

theorem kind_mem_leafKindsList (link : Linkage) : ∀ (kinds : List Kind) (state : UInt64)
    (index : Nat) (store : Store),
    ∀ call ∈ leafCallsFrom link kinds state index store, call.kind ∈ Kind.leafKindsList kinds
  | [], state, index, store, call, hc => by simp [leafCallsFrom] at hc
  | kind :: kinds, state, index, store, call, hc => by
    rw [leafCallsFrom, List.mem_append] at hc
    rw [Kind.leafKindsList, List.mem_append]
    rcases hc with hc | hc
    · exact .inl (kind_mem_leafKinds link kind _ _ call hc)
    · right
      split at hc
      · simp at hc
      · split at hc
        · simp at hc
        · exact kind_mem_leafKindsList link kinds _ _ _ call hc

end

/-- The leaves of a pair are ranges. -/
theorem builtIn_of_mem_leafKinds_pair :
    ∀ leaf ∈ Compiled.pairKind.leafKinds, BuiltIn leaf := by
  intro leaf hm
  have hrange : leaf = .range := by simpa [Compiled.pairKind, Kind.leafKinds, Kind.leafKindsList,
    Kind.range] using hm
  exact .inr (.inl hrange)

/-- The leaves of a value store whole values, if they are built-in objects. -/
theorem covers_leafCalls_of_builtIn {unit : Compiled} (h : unit.RunsRuntime) {kind : Kind}
    (hb : ∀ leaf ∈ kind.leafKinds, BuiltIn leaf) (iterator : UInt64) (store : Store) :
    ∀ call ∈ leafCalls unit.provided kind iterator store, call.Covers unit.provided :=
  fun call hc => covers_of_builtIn h (hb _ (kind_mem_leafKinds _ kind iterator store call hc))

end Exec

end PullIter
