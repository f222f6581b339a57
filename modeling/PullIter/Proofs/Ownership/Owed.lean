import PullIter.Proofs.Ownership.Lifetime

/-!
# What is owed

An iterator that was made of a value is owed to the routine that its kind names, until its owner
ends.  Releasing a combinator runs these routines for the iterators in its state, in order, and then
gives the state back.  So a release can fail only where one of these routines does, and a routine
does not fail for an iterator that is there and that it can end.

## Main definitions

* `Provider.releaseAll` — iterators that are ended one after the other.
* `Provider.Ready` — an iterator that is there and can be ended by its routine.
* `Compiled.Releasable` — a combinator of which everything is known that its release needs.
* `Compiled.Backed` — what is owed was made by some calls.

## Main results

* `releaseMade_eq_releaseAll`, `release_eq_map` — **what a release runs.**
* `exists_releaseAll` — iterators that are ready and all different can be ended.
* `Backed.owed`, `Backed.opening` — what is owed for an orderly kind was made.
* `exists_forEach` — **a loop whose rounds have ended** gives its iterator back.
* `orderly_of_builtIn` — built-in objects are orderly.
-/

namespace PullIter

open Store (Frame Only)

/-! ### Ending iterators -/

namespace Provider

/-- End iterators by routines, one after the other. -/
def releaseAll : List (Provider × UInt64) → Store → Except Fault Store
  | [], store => .ok store
  | (provider, iterator) :: rest, store =>
    match provider.linkedRelease iterator store with
    | .error fault => .error fault
    | .ok store => releaseAll rest store

theorem releaseAll_append (owed more : List (Provider × UInt64)) (store : Store) :
    releaseAll (owed ++ more) store = match releaseAll owed store with
      | .error fault => .error fault
      | .ok mid => releaseAll more mid := by
  induction owed generalizing store with
  | nil => rfl
  | cons first rest ih =>
    rw [List.cons_append, releaseAll, releaseAll]
    cases first.1.linkedRelease first.2 store with
    | error fault => rfl
    | ok mid => exact ih mid

/-- The iterator is there, and the routine can end it. -/
def Ready (owed : Provider × UInt64) (store : Store) : Prop :=
  ∃ cell, store.get? owed.2 = some cell ∧ owed.1.undoes cell.isScript = true

/-- An iterator that is ready can be ended. -/
theorem exists_release {provider : Provider} {iterator : UInt64} {store : Store}
    (h : Ready (provider, iterator) store) : ∃ after, provider.release iterator store = .ok after := by
  obtain ⟨cell, hc, hundoes⟩ : ∃ cell, store.get? iterator = some cell ∧
    provider.undoes cell.isScript = true := h
  unfold undoes at hundoes
  split at hundoes
  · by_cases hzero : iterator = 0
    · exact ⟨store, by rw [release, Store.arrayRelease, if_pos hzero]⟩
    · refine ⟨(store.erase iterator).count .arrayIter (-1), ?_⟩
      simp only [release, Store.arrayRelease, if_neg hzero, Store.reclaim, hc]
      rfl
  · cases cell with
    | script script =>
      simp only [release, Store.scriptRelease, hc]
      exact ⟨_, rfl⟩
    | array => cases hundoes
    | generator => cases hundoes
    | block => cases hundoes
  all_goals cases hundoes

/-- **Iterators that are ready and all different** can be ended. -/
theorem exists_releaseAll {owed : List (Provider × UInt64)} :
    ∀ {store : Store}, (∀ entry ∈ owed, Ready entry store) → (owed.map Prod.snd).Nodup →
      ∃ after, releaseAll owed store = .ok after := by
  induction owed with
  | nil => exact fun {store} _ _ => ⟨store, rfl⟩
  | cons first rest ih =>
    obtain ⟨provider, iterator⟩ := first
    intro store hready hnodup
    rw [List.map_cons, List.nodup_cons] at hnodup
    obtain ⟨mid, hmid⟩ := exists_release (hready _ (List.mem_cons_self ..))
    have hframe := (touches_release hmid).frame_called (.release provider iterator)
    rw [releaseAll, linkedRelease, hmid]
    refine ih (fun entry hm => ?_) hnodup.2
    -- the routine works on its iterator alone
    obtain ⟨cell, hc, hundoes⟩ := hready entry (List.mem_cons_of_mem _ hm)
    have hsnd : entry.2 ∈ rest.map Prod.snd := List.mem_map_of_mem hm
    obtain ⟨cell', hc', halike⟩ := hframe.kept (fun heq => hnodup.1 (heq ▸ hsnd)) hc
    exact ⟨cell', hc', by rw [halike.isScript_eq]; exact hundoes⟩

end Provider

/-! ### What a release runs -/

namespace Compiled

variable {unit : Compiled}

/-- The symbols of a kind are linked to routines. -/
def Links (unit : Compiled) (kind : Kind) : Prop :=
  ∀ symbol ∈ kind.symbols, ∃ provider, unit.decls.provider? symbol = some provider

/-- The sources of a combinator are linked if it is. -/
theorem Links.sources {kind : Kind} (h : unit.Links kind) : ∀ source ∈ kind.sources,
    unit.Links source := by
  intro source hm symbol hs
  cases kind with
  | enumerate inner =>
    rw [List.mem_singleton.mp hm] at hs
    exact h symbol hs
  | zip kinds =>
    refine h symbol ?_
    rw [Kind.symbols, Kind.symbolsList_eq]
    exact List.mem_flatMap_of_mem hm hs
  | generator => cases hm
  | external => cases hm

/-- A combinator of which everything is known that its release needs: its symbols are linked, and the
size of its state is that of a block. -/
structure Releasable (unit : Compiled) (kind : Kind) : Prop where
  combinator : kind.isCombinator = true
  links : unit.Links kind
  block : ∃ block, Block.of kind.stateLayout.size kind.stateLayout.align = .ok block

/-- The store after the state of a combinator was given back. -/
def freeState (kind : Kind) (state : UInt64) (store : Store) : Store :=
  ((store.erase state).countTag AllocKind.combinatorState.tag (-1)).called (freed kind state)

end Compiled

namespace Exec

variable {unit : Compiled} {made : List Combinator} {store after : Store}

/-- **Releasing what was made of a value** runs the routine that it is owed to. -/
theorem releaseMade_eq_releaseAll {kind : Kind} (hl : unit.Links kind) (iterator : UInt64)
    (store : Store) : releaseMade unit.provided kind iterator store =
      Provider.releaseAll (unit.owed kind iterator) store := by
  unfold releaseMade
  split
  · next name yields getiter iname iyields next symbol =>
    obtain ⟨provider, hprov⟩ := hl symbol (by simp [Kind.symbols, External.symbols])
    have howed : unit.owed (.external (.iterable name yields getiter
        (.iterator iname iyields next (some symbol)))) iterator = [(provider, iterator)] := by
      simp only [Compiled.owed, Kind.madeReleaseSymbol?, Option.bind_some, hprov]
    rw [howed]
    simp only [Compiled.provided, hprov, Provider.releaseAll]
    cases provider.linkedRelease iterator store <;> rfl
  · next hnone =>
    have hsymbol : kind.madeReleaseSymbol? = none := by
      unfold Kind.madeReleaseSymbol?
      split
      · next release =>
        cases release with
        | none => rfl
        | some symbol => exact absurd rfl (hnone _ _ _ _ _ _ symbol)
      · rfl
    simp only [Compiled.owed, hsymbol, Option.bind_none, Provider.releaseAll]

/-- So does releasing what was made of the sources of a zip from an index on. -/
theorem releaseSources_eq_releaseAll (hr : unit.RunsRuntime) {value : Combinator} {all : List Kind}
    (hm : value ∈ made) (hkind : value.kind = .zip all) :
    ∀ {kinds : List Kind} {index : Nat} {store : Store}, Typed made store →
      kinds = all.drop index → (∀ kind ∈ kinds, unit.Links kind) →
      releaseSources unit.provided kinds value.state index store =
        Provider.releaseAll (unit.owedAll kinds (value.iterators.drop index)) store := by
  intro kinds
  induction kinds with
  | nil => intro index store _ _ _; rfl
  | cons kind kinds ih =>
    intro index store ht hall hl
    obtain ⟨iterator, hpeek, hdrop, hpoints, hrest⟩ := exists_source_zip ht hm hkind hall
    have hmade := releaseMade_eq_releaseAll (hl kind (List.mem_cons_self ..)) iterator store
    rw [releaseSources_cons hpeek, hdrop, Compiled.owedAll, Provider.releaseAll_append, ← hmade]
    cases hs : releaseMade unit.provided kind iterator store with
    | error fault => rfl
    | ok mid =>
      -- the state is still there for the next source
      have hmid := (ran_releaseMade hr ht hpoints hs).typed
      exact ih hmid hrest fun source hs => hl source (List.mem_cons_of_mem _ hs)

/-- The state of a combinator that lives can be given back. -/
theorem provided_free_of_found (hr : unit.RunsRuntime) {value : Combinator} (ht : Typed made store)
    (hm : value ∈ made) (hblock : ∃ block,
      Block.of value.kind.stateLayout.size value.kind.stateLayout.align = .ok block) :
    unit.provided.free value.kind.stateLayout value.state store =
      .ok (Compiled.freeState value.kind value.state store) := by
  obtain ⟨block, words, hg, -⟩ := ht.found value hm
  obtain ⟨size, hsize⟩ := hblock
  have hne : value.state ≠ 0 := by
    intro hzero
    have hfirst := (ht.bounds hm).1
    rw [hzero] at hfirst
    exact absurd hfirst (by decide)
  rw [Compiled.provided_free hr]
  simp only [Provider.linkedFree, Provider.free, Store.freeBlock, if_neg hne, hsize, Store.reclaim, hg]
  rfl

/-- **Releasing a combinator** ends the iterators that its state holds, in order, and gives the state
back. -/
theorem release_eq_map (hr : unit.RunsRuntime) {value : Combinator} (ht : Typed made store)
    (hm : value ∈ made) (h : unit.Releasable value.kind) :
    release unit.provided value.kind value.state store =
      (Provider.releaseAll (unit.owedAll value.kind.sources value.iterators) store).map
        (Compiled.freeState value.kind value.state) := by
  cases hkind : value.kind with
  | enumerate source =>
    obtain ⟨iterator, hpeek, hone, hpoints⟩ := exists_source_enumerate ht hm hkind
    have hl : unit.Links source := h.links.sources source (by rw [hkind]; exact List.mem_cons_self ..)
    have hmade := releaseMade_eq_releaseAll hl iterator store
    rw [release_enumerate hpeek, hone]
    simp only [Kind.sources, Compiled.owedAll, List.append_nil, ← hmade]
    cases hs : releaseMade unit.provided source iterator store with
    | error fault => rfl
    | ok mid =>
      have hfree := provided_free_of_found hr (ran_releaseMade hr ht hpoints hs).typed hm h.block
      rw [hkind] at hfree
      exact hfree
  | zip sources =>
    have hl := h.links.sources
    rw [hkind] at hl
    have hall := releaseSources_eq_releaseAll hr hm hkind ht (show sources = sources.drop 0 from rfl) hl
    rw [List.drop_zero] at hall
    rw [release, Kind.sources, ← hall]
    cases hs : releaseSources unit.provided sources value.state 0 store with
    | error fault => rfl
    | ok mid =>
      have hmid := (releaseSources_effect hr hm hkind ht (show sources = sources.drop 0 from rfl) hs).typed
      have hfree := provided_free_of_found hr hmid hm h.block
      rw [hkind] at hfree
      exact hfree
  | generator => exact absurd h.combinator (by rw [hkind]; exact Bool.false_ne_true)
  | external => exact absurd h.combinator (by rw [hkind]; exact Bool.false_ne_true)

/-- A combinator that was made has a state of a size that can be given back. -/
theorem exists_block_of_construct (hr : unit.RunsRuntime) {kind : Kind} {args : List Scalar}
    {record : List UInt8} {state : UInt64}
    (h : construct unit.provided kind args record store = .ok (state, after)) :
    kind.isCombinator = true ∧
      ∃ block, Block.of kind.stateLayout.size kind.stateLayout.align = .ok block := by
  have hblock : ∀ {layout : Layout} {state : UInt64} {before after : Store},
      unit.provided.alloc layout before = .ok (state, after) →
        ∃ block, Block.of layout.size layout.align = .ok block := by
    intro layout state before after halloc
    rw [Compiled.provided_alloc hr] at halloc
    obtain ⟨block, _, hof, -⟩ := Provider.linkedAlloc_eq_ok halloc
    exact ⟨block, hof⟩
  cases kind with
  | enumerate source =>
    obtain ⟨_, _, _, _, _, _, -, -, -, halloc, -⟩ := exists_of_construct_enumerate h
    exact ⟨rfl, hblock halloc⟩
  | zip sources =>
    obtain ⟨_, halloc, -⟩ := exists_of_construct_zip h
    exact ⟨rfl, hblock halloc⟩
  | generator => cases h
  | external => cases h

end Exec

/-- What no call ends stays ready. -/
theorem Provider.Ready.custody {entry : Provider × UInt64} {calls : List Call} {store after : Store}
    (h : Provider.Ready entry store) (hc : Store.Custody calls store after)
    (hended : ∀ call ∈ calls, call.ended? ≠ some entry.2) : Provider.Ready entry after := by
  obtain ⟨cell, hcell, hundoes⟩ := h
  obtain ⟨cell', hcell', hsame⟩ := hc.kept hcell hended
  exact ⟨cell', hcell', by rw [hsame]; exact hundoes⟩

/-! ### What is owed was made -/

namespace Compiled

variable {unit : Compiled}

/-- What is given back is what is owed. -/
theorem given_eq_map (kind : Kind) (iterator : UInt64) : unit.given kind iterator =
    (unit.owed kind iterator).map fun entry => .release entry.1 entry.2 := by
  unfold given owed
  split <;> rfl

theorem givenAll_eq_map (kinds : List Kind) (iterators : List UInt64) :
    unit.givenAll kinds iterators =
      (unit.owedAll kinds iterators).map fun entry => .release entry.1 entry.2 := by
  induction kinds generalizing iterators with
  | nil => rfl
  | cons kind kinds ih =>
    cases iterators with
    | nil => rfl
    | cons iterator iterators =>
      rw [givenAll, owedAll, given_eq_map, ih, List.map_append]

theorem snd_of_mem_owed {kind : Kind} {iterator : UInt64} {entry : Provider × UInt64}
    (h : entry ∈ unit.owed kind iterator) : entry.2 = iterator := by
  unfold owed at h
  split at h
  · rw [List.mem_singleton.mp h]
  · cases h

/-- Only leaves are owed. -/
theorem isCombinator_of_mem_owed {kind : Kind} {iterator : UInt64} {entry : Provider × UInt64}
    (h : entry ∈ unit.owed kind iterator) : kind.isCombinator = false := by
  cases kind with
  | enumerate => cases h
  | zip => cases h
  | generator => rfl
  | external => rfl

/-- What is owed for the sources of a combinator is owed for one of them. -/
theorem exists_of_mem_owedAll {kinds : List Kind} {iterators : List UInt64}
    {entry : Provider × UInt64} (h : entry ∈ unit.owedAll kinds iterators) :
    ∃ (i : Nat) (kind : Kind) (iterator : UInt64), kinds[i]? = some kind ∧
      iterators[i]? = some iterator ∧ entry ∈ unit.owed kind iterator := by
  induction kinds generalizing iterators with
  | nil => cases h
  | cons kind kinds ih =>
    cases iterators with
    | nil => cases h
    | cons iterator iterators =>
      rcases List.mem_append.mp h with h | h
      · exact ⟨0, kind, iterator, rfl, rfl, h⟩
      · obtain ⟨i, found, other, hk, hi, hm⟩ := ih h
        exact ⟨i + 1, found, other, hk, hi, hm⟩

/-! ### Orderly kinds -/

namespace Orderly

variable {kind : Kind} {kinds : List Kind} {value iterator : UInt64}
  {operands iterators : List UInt64}

theorem leaf (h : unit.Orderly kind) (hk : kind.isCombinator = false) : unit.OrderlyLeaf kind := by
  cases kind with
  | enumerate => cases hk
  | zip => cases hk
  | generator => exact h _ (by rw [Kind.leafKinds]; exact List.mem_singleton_self _)
  | external => exact h _ (by rw [Kind.leafKinds]; exact List.mem_singleton_self _)

theorem sources (h : unit.Orderly kind) : ∀ source ∈ kind.sources, unit.Orderly source :=
  fun _ hm leaf hleaf => h leaf (Kind.leafKinds_subset hm hleaf)

/-- Making an iterator of an orderly value ends nothing. -/
theorem ended?_of_mem_taken (h : unit.Orderly kind) {call : Call}
    (hm : call ∈ unit.taken kind value iterator) : call.ended? = none := by
  unfold taken at hm
  split at hm
  · next provider hbind =>
    obtain ⟨symbol, hsymbol, hprov⟩ := Option.bind_eq_some_iff.mp hbind
    obtain ⟨hk, hdriving⟩ : kind.isCombinator = false ∧ symbol ∈ kind.drivingSymbols := by
      unfold Kind.getiterSymbol? at hsymbol
      split at hsymbol
      · next name yields getiter made =>
        cases hsymbol
        cases made <;> exact ⟨rfl, List.mem_cons_self ..⟩
      · cases hsymbol
    rw [List.mem_singleton.mp hm, Call.ended?, (h.leaf hk).spares symbol hdriving provider hprov]
    rfl
  · cases hm

theorem ended?_of_mem_takenAll (h : ∀ kind ∈ kinds, unit.Orderly kind) {call : Call}
    (hm : call ∈ unit.takenAll kinds operands iterators) : call.ended? = none := by
  induction kinds generalizing operands iterators with
  | nil => cases hm
  | cons kind kinds ih =>
    rw [List.forall_mem_cons] at h
    match operands, iterators, hm with
    | operand :: operands, iterator :: iterators, hm =>
      rcases List.mem_append.mp hm with hm | hm
      · exact h.1.ended?_of_mem_taken hm
      · exact ih h.2 hm

/-- Making an orderly combinator ends nothing. -/
theorem ended?_of_mem_opening {state : UInt64} (h : unit.Orderly kind) {call : Call}
    (hm : call ∈ unit.opening kind operands iterators state) : call.ended? = none := by
  have hall : call ∈ unit.takenAll kind.sources operands iterators ∨ call = allocated kind state := by
    unfold opening at hm
    split at hm
    · rcases List.mem_append.mp hm with hm | hm
      · exact .inl hm
      · exact .inr (List.mem_singleton.mp hm)
    · exact (List.mem_cons.mp hm).symm
  rcases hall with hm | rfl
  · exact ended?_of_mem_takenAll h.sources hm
  · rfl

/-- **What is owed was made**, by a routine that goes with the one that ends it. -/
theorem taken_of_mem_owed (h : unit.Orderly kind) (hl : unit.Links kind) (value : UInt64)
    {entry : Provider × UInt64} (hm : entry ∈ unit.owed kind iterator) :
    ∃ getiter script, unit.taken kind value iterator = [.getiter getiter value iterator] ∧
      getiter.makes? = some script ∧ entry.1.undoes script = true := by
  have hk := isCombinator_of_mem_owed hm
  unfold owed at hm
  split at hm
  · next release hrelease =>
    rw [List.mem_singleton.mp hm]
    obtain ⟨symbol, hsymbol, -⟩ := Option.bind_eq_some_iff.mp hrelease
    -- only an iterable names what ends its iterators, and it names what makes them
    obtain ⟨getiter, hgetiter, hmem⟩ : ∃ getiter, kind.getiterSymbol? = some getiter ∧
        getiter ∈ kind.symbols := by
      unfold Kind.madeReleaseSymbol? at hsymbol
      split at hsymbol
      · exact ⟨_, rfl, by simp [Kind.symbols, External.symbols]⟩
      · cases hsymbol
    obtain ⟨provider, hprov⟩ := hl getiter hmem
    have hbind : kind.getiterSymbol?.bind unit.decls.provider? = some provider := by
      rw [hgetiter, Option.bind_some, hprov]
    obtain ⟨script, hmakes, hundoes⟩ := (h.leaf hk).undoes hbind hrelease
    exact ⟨provider, script, by rw [taken, hbind], hmakes, hundoes⟩
  · cases hm

end Orderly

/-- What an account owes was made by some calls, each by a routine that goes with the one that ends
it. -/
structure Backed (owed : List (Provider × UInt64)) (calls : List Call) : Prop where
  made : ∀ entry ∈ owed, ∃ call ∈ calls, ∃ script, call.made? = some (entry.2, script) ∧
    entry.1.undoes script = true
  sublist : (owed.map Prod.snd).Sublist ((calls.filterMap Call.made?).map Prod.fst)

namespace Backed

variable {kind : Kind} {kinds : List Kind} {value iterator : UInt64}
  {operands iterators : List UInt64}

theorem nil (calls : List Call) : Backed [] calls :=
  ⟨fun _ hm => absurd hm List.not_mem_nil, List.nil_sublist _⟩

theorem append {owed more : List (Provider × UInt64)} {calls others : List Call}
    (h : Backed owed calls) (h' : Backed more others) : Backed (owed ++ more) (calls ++ others) where
  made := by
    rw [List.forall_mem_append]
    refine ⟨fun entry hm => ?_, fun entry hm => ?_⟩
    · obtain ⟨call, hcall, hmade⟩ := h.made entry hm
      exact ⟨call, List.mem_append_left _ hcall, hmade⟩
    · obtain ⟨call, hcall, hmade⟩ := h'.made entry hm
      exact ⟨call, List.mem_append_right _ hcall, hmade⟩
  sublist := by
    rw [List.map_append, List.filterMap_append, List.map_append]
    exact h.sublist.append h'.sublist

/-- An iterator that was made of an orderly value. -/
theorem owed (h : unit.Orderly kind) (hl : unit.Links kind) (value iterator : UInt64) :
    Backed (unit.owed kind iterator) (unit.taken kind value iterator) := by
  cases howed : unit.owed kind iterator with
  | nil => exact .nil _
  | cons entry rest =>
    have hm : entry ∈ unit.owed kind iterator := by rw [howed]; exact List.mem_cons_self ..
    obtain ⟨getiter, script, htaken, hmakes, hundoes⟩ := h.taken_of_mem_owed hl value hm
    obtain rfl : rest = [] := by
      unfold Compiled.owed at howed
      split at howed
      · cases howed; rfl
      · cases howed
    have hmade : (Call.getiter getiter value iterator).made? = some (iterator, script) := by
      rw [Call.made?, hmakes, Option.map_some]
    have hsnd := snd_of_mem_owed hm
    rw [htaken]
    refine ⟨List.forall_mem_singleton.mpr ⟨_, List.mem_singleton_self _, script, ?_, hundoes⟩, ?_⟩
    · rw [hmade, hsnd]
    · rw [List.filterMap_cons_some hmade, List.map_singleton, hsnd]
      exact List.Sublist.refl _

/-- The iterators that were made of the sources of an orderly combinator. -/
theorem owedAll (h : ∀ kind ∈ kinds, unit.Orderly kind) (hl : ∀ kind ∈ kinds, unit.Links kind)
    (hlen : operands.length = kinds.length) :
    Backed (unit.owedAll kinds iterators) (unit.takenAll kinds operands iterators) := by
  induction kinds generalizing operands iterators with
  | nil => exact .nil _
  | cons kind kinds ih =>
    rw [List.forall_mem_cons] at h hl
    match operands, iterators, hlen with
    | operand :: operands, [], _ => exact .nil _
    | operand :: operands, iterator :: iterators, hlen =>
      exact (owed h.1 hl.1 operand iterator).append (ih h.2 hl.2 (Nat.succ.inj hlen))

/-- Making an orderly combinator makes what it owes. -/
theorem opening {state : UInt64} (h : unit.Orderly kind) (hl : unit.Links kind)
    (hlen : operands.length = kind.sources.length) :
    Backed (unit.owedAll kind.sources iterators) (unit.opening kind operands iterators state) := by
  have hsources := @owedAll unit _ operands iterators h.sources hl.sources hlen
  unfold Compiled.opening
  split
  · next source =>
    have hall := hsources.append (nil [allocated (.enumerate source) state])
    rwa [List.append_nil] at hall
  · exact (nil [allocated kind state]).append hsources

/-- What was made is ready, unless it was ended. -/
theorem ready {owed : List (Provider × UInt64)} {calls : List Call} {store after : Store}
    (h : Backed owed calls) (hc : Store.Custody calls store after)
    (hended : ∀ entry ∈ owed, ∀ call ∈ calls, call.ended? ≠ some entry.2) :
    ∀ entry ∈ owed, Provider.Ready entry after := by
  intro entry hm
  obtain ⟨call, hcall, script, hmade, hundoes⟩ := h.made entry hm
  obtain ⟨cell, hcell, hscript⟩ := hc.made hcall hmade (hended entry hm)
  exact ⟨cell, hcell, by rw [hscript]; exact hundoes⟩

end Backed

/-- Built-in objects are orderly. -/
theorem orderly_of_builtIn (hr : unit.RunsRuntime) {kind : Kind}
    (h : ∀ leaf ∈ kind.leafKinds, Exec.BuiltIn leaf) : unit.Orderly kind := by
  have hspares : ∀ {symbols : List String} (routines : List Intrinsic),
      symbols = routines.map Intrinsic.name →
      (∀ routine ∈ routines, (Provider.intrinsic routine).ends = false) →
      ∀ symbol ∈ symbols, ∀ provider, unit.decls.provider? symbol = some provider →
        provider.ends = false := by
    rintro _ routines rfl hends symbol hm provider hprov
    obtain ⟨routine, hroutine, rfl⟩ := List.mem_map.mp hm
    rw [hr routine] at hprov
    cases hprov
    exact hends routine hroutine
  intro leaf hm
  rcases h leaf hm with rfl | rfl | ⟨name, rfl⟩
  · refine ⟨hspares [.arrayGetiter, .arrayNext] rfl (by decide), fun hmade hended => ?_⟩
    rw [show Kind.array.getiterSymbol? = some Intrinsic.arrayGetiter.name from rfl, Option.bind_some,
      hr .arrayGetiter] at hmade
    rw [show Kind.array.madeReleaseSymbol? = some Intrinsic.arrayRelease.name from rfl,
      Option.bind_some, hr .arrayRelease] at hended
    cases hmade
    cases hended
    exact ⟨false, rfl, rfl⟩
  · exact ⟨hspares [.rangeNext] rfl (by decide), fun hmade => nomatch hmade⟩
  · exact ⟨hspares [.generatorResume] rfl (by decide), fun hmade => nomatch hmade⟩

end Compiled

/-! ### Loops -/

namespace Exec

variable {unit : Compiled} {made : List Combinator}

/-- **A loop whose rounds have ended** gives its iterator back: what the loop made is still there. -/
theorem exists_forEach {σ : Type} (hr : unit.RunsRuntime) {kind : Kind} (horderly : unit.Orderly kind)
    (hl : unit.Links kind) {sink : Sink σ} {slot : List UInt8} {value iterator : UInt64}
    {seen seen' : σ} {status : Status} {store mid last : Store} (ht : Typed made store)
    (hp : Points made store kind value)
    (hget : getiter unit.provided kind value store = .ok (iterator, mid))
    (hrounds : rounds unit.provided kind sink iterator (mid.rounds + 1) slot seen mid =
      .ok (status, seen', last)) :
    ∃ after, forEach unit.provided kind sink slot value seen store = .ok (status, seen', after) := by
  have hgot := getiter_effect hr ht hp hget
  obtain ⟨used, -, hspares, hran⟩ :=
    rounds_effect hr _ (hgot.ran ht hp).typed hgot.points hrounds
  have hcustody := hgot.effect.custody.trans hran.effect.custody
  have hbacked := (Compiled.Backed.owed horderly hl value iterator).append (.nil used)
  rw [List.append_nil] at hbacked
  have hended : ∀ call ∈ unit.taken kind value iterator ++ used, call.ended? = none :=
    List.forall_mem_append.mpr ⟨fun call hm => horderly.ended?_of_mem_taken hm, hspares horderly⟩
  obtain ⟨after, hafter⟩ := Provider.exists_releaseAll
    (hbacked.ready hcustody fun entry _ call hm heq => by rw [hended call hm] at heq; cases heq)
    (hbacked.sublist.nodup hcustody.nodup)
  refine ⟨after, ?_⟩
  rw [forEach, hget]
  simp only [hrounds, releaseMade_eq_releaseAll hl, hafter]
  rfl

end Exec

end PullIter
