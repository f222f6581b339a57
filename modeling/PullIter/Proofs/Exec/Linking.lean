import PullIter.Host
import PullIter.Proofs.Exec.Combinators
import PullIter.Proofs.Store.Effects
import PullIter.Proofs.Unit.Finished

/-!
# Bodies run what their symbols are linked to

A body looks its symbols up by name, so a lowered body may take the place of the code that a
symbol is linked to.  Where no lowered body bears the name of a symbol of a kind, running an
entry point of the kind is running its body with the linked routines, to whatever depth bodies
may call each other.

## Main definitions

* `Compiled.provided` — every symbol is the routine it is linked to.
* `Compiled.CallsLinked` — no lowered body takes the place of a symbol of a kind.
* `Linkage.AgreesOn` — two linkages in which some symbols do the same.

## Main results

* `next_congr`, `forEach_congr`, .. — a body depends on the symbols of its kind only.
* `callsLinked_of_hygienic` — what hygiene says about an available entry point.
* `next_eq`, `getiter_eq`, `forEach_eq`, `construct_eq`, `release_eq` — the code of an entry point
  runs the linked routines.
-/

namespace PullIter

/-! ### What a body depends on -/

/-- Some symbols, and the memory primitives, do the same in both linkages. -/
structure Linkage.AgreesOn (symbols : List String) (link link' : Linkage) : Prop where
  next : ∀ symbol ∈ symbols, link.next symbol = link'.next symbol
  getiter : ∀ symbol ∈ symbols, link.getiter symbol = link'.getiter symbol
  release : ∀ symbol ∈ symbols, link.release symbol = link'.release symbol
  alloc : link.alloc = link'.alloc
  free : link.free = link'.free

theorem Linkage.AgreesOn.mono {symbols fewer : List String} {link link' : Linkage}
    (h : link.AgreesOn symbols link') (hs : ∀ symbol ∈ fewer, symbol ∈ symbols) :
    link.AgreesOn fewer link' :=
  ⟨fun s hm => h.next s (hs s hm), fun s hm => h.getiter s (hs s hm),
    fun s hm => h.release s (hs s hm), h.alloc, h.free⟩

namespace Exec

variable {link link' : Linkage}

theorem agreesOn_head {kind : Kind} {rest : List Kind}
    (h : link.AgreesOn (Kind.symbolsList (kind :: rest)) link') :
    link.AgreesOn kind.symbols link' :=
  h.mono fun _ hm => by rw [Kind.symbolsList]; exact List.mem_append_left _ hm

theorem agreesOn_tail {kind : Kind} {rest : List Kind}
    (h : link.AgreesOn (Kind.symbolsList (kind :: rest)) link') :
    link.AgreesOn (Kind.symbolsList rest) link' :=
  h.mono fun _ hm => by rw [Kind.symbolsList]; exact List.mem_append_right _ hm

mutual

/-- A step depends on the symbols of the kind only. -/
theorem next_congr : ∀ (kind : Kind), link.AgreesOn kind.symbols link' → ∀ iterator store,
    next link kind iterator store = next link' kind iterator store
  | .enumerate source, h, state, store => by
    simp only [next, next_congr source h]
  | .zip [], h, state, store => by rw [next_zip_nil, next_zip_nil]
  | .zip (source :: sources), h, state, store => by
    rw [next, next]
    exact nextRound_congr (source :: sources) h _ _ _ _ _
  | .generator name yields resume, h, handle, store => by
    rw [next_generator, next_generator, h.next resume (List.mem_singleton_self _)]
  | .external (.iterator name yields symbol release), h, iterator, store => by
    rw [next, next, h.next symbol (List.mem_cons_self ..)]
  | .external (.iterable _ _ getiter (.iterator _ _ symbol _)), h, iterator, store => by
    rw [next, next, h.next symbol (List.mem_cons_of_mem _ (List.mem_cons_self ..))]
  | .external (.iterable _ _ _ (.iterable ..)), h, iterator, store => by rw [next, next]

/-- So does a round over some sources. -/
theorem nextRound_congr : ∀ (kinds : List Kind), link.AgreesOn (Kind.symbolsList kinds) link' →
    ∀ state index slots valid store,
      nextRound link kinds state index slots valid store =
        nextRound link' kinds state index slots valid store
  | [], h, state, index, slots, valid, store => by rw [nextRound_nil, nextRound_nil]
  | kind :: kinds, h, state, index, [], valid, store => by
    rw [nextRound_noSlots, nextRound_noSlots]
  | kind :: kinds, h, state, index, slot :: slots, valid, store => by
    rw [nextRound, nextRound]
    split
    · rfl
    · rw [next_congr kind (agreesOn_head h)]
      split
      · rfl
      · rw [nextRound_congr kinds (agreesOn_tail h)]

end

theorem getiter_congr (kind : Kind) (h : link.AgreesOn kind.symbols link') (value : UInt64)
    (store : Store) : getiter link kind value store = getiter link' kind value store := by
  unfold getiter
  split
  · next symbol hs =>
    have hm : symbol ∈ kind.symbols := by
      cases kind with
      | external ext => cases ext with
        | iterable => cases hs; exact List.mem_cons_self ..
        | iterator => cases hs
      | enumerate => cases hs
      | zip => cases hs
      | generator => cases hs
    rw [h.getiter symbol hm]
  · rfl

theorem releaseMade_congr (kind : Kind) (h : link.AgreesOn kind.symbols link') (iterator : UInt64)
    (store : Store) : releaseMade link kind iterator store = releaseMade link' kind iterator store := by
  unfold releaseMade
  split
  · next symbol => rw [h.release symbol (by simp [Kind.symbols, External.symbols])]
  · rfl

theorem releaseSources_congr {kinds : List Kind} :
    link.AgreesOn (Kind.symbolsList kinds) link' → ∀ state index store,
      releaseSources link kinds state index store = releaseSources link' kinds state index store := by
  induction kinds with
  | nil => intro h state index store; rfl
  | cons kind rest ih =>
    intro h state index store
    rw [releaseSources, releaseSources]
    simp only [releaseMade_congr kind (agreesOn_head h), ih (agreesOn_tail h)]

theorem storeSources_congr {layout : Layout} {record : List UInt8} {state : UInt64}
    {kinds : List Kind} : link.AgreesOn (Kind.symbolsList kinds) link' → ∀ index store,
      storeSources link layout record state kinds index store =
        storeSources link' layout record state kinds index store := by
  induction kinds with
  | nil => intro h index store; rfl
  | cons kind rest ih =>
    intro h index store
    rw [storeSources, storeSources]
    simp only [getiter_congr kind (agreesOn_head h), ih (agreesOn_tail h)]

theorem construct_congr {kind : Kind} (h : link.AgreesOn kind.symbols link') (args : List Scalar)
    (record : List UInt8) (store : Store) :
    construct link kind args record store = construct link' kind args record store := by
  cases kind with
  | enumerate source => simp only [construct, getiter_congr source h, h.alloc]
  | zip sources => simp only [construct, storeSources_congr h, h.alloc]
  | generator => rfl
  | external => rfl

theorem release_congr {kind : Kind} (h : link.AgreesOn kind.symbols link') (state : UInt64)
    (store : Store) : release link kind state store = release link' kind state store := by
  cases kind with
  | enumerate source => simp only [release, releaseMade_congr source h, h.free]
  | zip sources => simp only [release, releaseSources_congr h, h.free]
  | generator => rfl
  | external => rfl

theorem rounds_congr {σ : Type} {kind : Kind} (h : link.AgreesOn kind.symbols link')
    (sink : Sink σ) (iterator : UInt64) (fuel : Nat) : ∀ buffer seen store,
      rounds link kind sink iterator fuel buffer seen store =
        rounds link' kind sink iterator fuel buffer seen store := by
  induction fuel with
  | zero => intro buffer seen store; rfl
  | succ fuel ih =>
    intro buffer seen store
    simp only [rounds, next_congr kind h, ih]

/-- A loop depends on the symbols of the kind only. -/
theorem forEach_congr {σ : Type} {kind : Kind} (h : link.AgreesOn kind.symbols link')
    (sink : Sink σ) (slot : List UInt8) (value : UInt64) (seen : σ) (store : Store) :
    forEach link kind sink slot value seen store =
      forEach link' kind sink slot value seen store := by
  simp only [forEach, getiter_congr kind h, rounds_congr h, releaseMade_congr kind h]

end Exec

/-! ### Linked routines -/

namespace Compiled

/-- Every symbol is the routine that it is linked to. -/
def provided (unit : Compiled) : Linkage where
  next symbol iterator store :=
    match unit.decls.provider? symbol with
    | none => .error (.noCode symbol)
    | some provider => provider.linkedNext iterator store
  getiter symbol value store :=
    match unit.decls.provider? symbol with
    | none => .error (.noCode symbol)
    | some provider => provider.linkedGetiter value store
  release symbol iterator store :=
    match unit.decls.provider? symbol with
    | none => .error (.noCode symbol)
    | some provider => provider.linkedRelease iterator store
  alloc layout store :=
    match unit.decls.provider? Intrinsic.alloc.name with
    | none => .error (.noCode Intrinsic.alloc.name)
    | some provider => provider.linkedAlloc layout store
  free layout state store :=
    match unit.decls.provider? Intrinsic.free.name with
    | none => .error (.noCode Intrinsic.free.name)
    | some provider => provider.linkedFree layout state store

section Provided

variable {unit : Compiled} {symbol : String} {iterator value : UInt64} {store after : Store}

theorem exists_of_provided_getiter
    (h : unit.provided.getiter symbol value store = .ok (iterator, after)) :
    ∃ provider mid, unit.decls.provider? symbol = some provider ∧
      provider.getiter value store = .ok (iterator, mid) ∧
      after = mid.called (.getiter provider value iterator) := by
  simp only [provided] at h
  split at h
  · cases h
  · next provider hp =>
    obtain ⟨⟨made, mid⟩, hmade, heq⟩ := Except.exists_of_map_eq_ok h
    cases heq
    exact ⟨provider, mid, hp, hmade, rfl⟩

theorem exists_of_provided_release (h : unit.provided.release symbol iterator store = .ok after) :
    ∃ provider mid, unit.decls.provider? symbol = some provider ∧
      provider.release iterator store = .ok mid ∧
      after = mid.called (.release provider iterator) := by
  simp only [provided] at h
  split at h
  · cases h
  · next provider hp =>
    obtain ⟨mid, hreleased, rfl⟩ := Except.exists_of_map_eq_ok h
    exact ⟨provider, mid, hp, hreleased, rfl⟩

end Provided

/-- No lowered body bears the name of a symbol of the kind. -/
def CallsLinked (unit : Compiled) (kind : Kind) : Prop :=
  ∀ symbol ∈ kind.symbols, ∀ lowered ∈ unit.registry.lowered, lowered.1.symbolName ≠ symbol

/-- A name that no lowered body bears is the routine that it is linked to. -/
theorem callCode?_eq {unit : Compiled} {symbol : String}
    (h : ∀ lowered ∈ unit.registry.lowered, lowered.1.symbolName ≠ symbol) :
    unit.callCode? symbol = (unit.decls.provider? symbol).map .provided := by
  unfold callCode?
  split
  · next entry id hfound =>
    have hname := List.find?_some hfound
    exact absurd (by simpa using hname) (h _ (List.mem_of_find?_eq_some hfound))
  · rfl

theorem callCode_eq {unit : Compiled} {symbol : String}
    (h : ∀ lowered ∈ unit.registry.lowered, lowered.1.symbolName ≠ symbol) :
    unit.callCode symbol = match unit.decls.provider? symbol with
      | none => .error (.noCode symbol)
      | some provider => .ok (.provided provider) := by
  rw [callCode, callCode?_eq h]
  cases unit.decls.provider? symbol <;> rfl

/-- The symbol of a lowered body is none of the built-in ones: it begins with another letter. -/
theorem symbolName_ne_intrinsic (entry : Entry) (routine : Intrinsic) :
    entry.symbolName ≠ routine.name := by
  have hroutine : routine.name.toList.head? = some 's' := by cases routine <;> rfl
  have hstem : ∃ first rest, entry.op.stem.toList = first :: rest ∧ first ≠ 's' := by
    cases entry.op with
    | getiter => exact ⟨'g', _, rfl, by decide⟩
    | iternext => exact ⟨'i', _, rfl, by decide⟩
    | release => exact ⟨'r', _, rfl, by decide⟩
    | construct args => exact ⟨'n', ['e', 'w'], by rw [Op.stem]; rfl, by decide⟩
    | forEach => exact ⟨'f', _, rfl, by decide⟩
  have hentry : entry.symbolName.toList.head? ≠ some 's' := by
    obtain ⟨first, rest, hs, hne⟩ := hstem
    unfold Entry.symbolName
    split <;> simpa [hs] using hne
  intro h
  rw [h] at hentry
  exact hentry hroutine

/-- An imported symbol of a hygienic unit is no name of a lowered body. -/
theorem callsLinked_of_hygienic {unit : Compiled} {options : Options}
    {externals : List (String × Provider)} {requests : List Request}
    (h : unit.Finished options externals requests) (hygienic : unit.Hygienic) {entry : Entry}
    {code : Code} (hc : unit.entryCode entry = .ok code) : unit.CallsLinked entry.kind := by
  intro symbol hs lowered hm heq
  have himported := (h.linked hc hs).1
  rw [← heq, hygienic lowered hm] at himported
  cases himported

/-- **Bodies run the linked routines**, to every depth at which they run at all. -/
theorem agreesOn_linkage {unit : Compiled} {kind : Kind} (h : unit.CallsLinked kind) (depth : Nat) :
    (unit.linkage (depth + 1)).AgreesOn kind.symbols unit.provided := by
  constructor
  · intro symbol hs
    funext iterator store
    simp only [linkage, provided, callCode_eq (h symbol hs)]
    cases unit.decls.provider? symbol <;> rfl
  · intro symbol hs
    funext value store
    simp only [linkage, provided, callCode_eq (h symbol hs)]
    cases unit.decls.provider? symbol <;> rfl
  · intro symbol hs
    funext iterator store
    simp only [linkage, provided, callCode_eq (h symbol hs)]
    cases unit.decls.provider? symbol <;> rfl
  · funext layout store
    simp only [linkage, provided,
      callCode_eq fun lowered _ => symbolName_ne_intrinsic lowered.1 .alloc]
    cases unit.decls.provider? Intrinsic.alloc.name <;> rfl
  · funext layout state store
    simp only [linkage, provided,
      callCode_eq fun lowered _ => symbolName_ne_intrinsic lowered.1 .free]
    cases unit.decls.provider? Intrinsic.free.name <;> rfl

/-- A run in a store has some depth. -/
theorem agreesOn_linked {unit : Compiled} {kind : Kind} (h : unit.CallsLinked kind)
    (store : Store) : (unit.linked store).AgreesOn kind.symbols unit.provided :=
  agreesOn_linkage h _

/-! ### The code of entry points -/

variable {unit : Compiled}

/-- Advancing an iterator by its entry point runs the linked routines. -/
theorem next_eq {kind : Kind} {code : Code} (h : unit.CallsLinked kind)
    (hp : unit.Provides ⟨.iternext, kind⟩ code) (iterator : UInt64) (store : Store) :
    unit.next code iterator store = Exec.next unit.provided kind iterator store := by
  rcases hp with ⟨-, rfl⟩ | ⟨symbol, provider, hi, hprov, rfl⟩
  · exact Exec.next_congr kind (agreesOn_linked h store) iterator store
  · cases kind with
    | external ext => cases ext with
      | iterator name yields nextSymbol release =>
        cases hi
        simp only [next, Code.next, Exec.next, provided, hprov]
      | iterable => cases hi
    | enumerate => cases hi
    | zip => cases hi
    | generator => cases hi

/-- The entry point that makes iterators is always lowered. -/
theorem getiter_eq {kind : Kind} {code : Code} (h : unit.CallsLinked kind)
    (hp : unit.Provides ⟨.getiter, kind⟩ code) (value : UInt64) (store : Store) :
    unit.getiter code value store = Exec.getiter unit.provided kind value store := by
  rcases hp with ⟨-, rfl⟩ | ⟨symbol, provider, hi, -⟩
  · exact Exec.getiter_congr kind (agreesOn_linked h store) value store
  · cases hi

/-- So is a loop. -/
theorem forEach_eq {σ : Type} {kind : Kind} {code : Code} (h : unit.CallsLinked kind)
    (hp : unit.Provides ⟨.forEach, kind⟩ code) (sink : Exec.Sink σ) (slot : List UInt8)
    (value : UInt64) (seen : σ) (store : Store) :
    unit.forEach code sink slot value seen store =
      Exec.forEach unit.provided kind sink slot value seen store := by
  rcases hp with ⟨-, rfl⟩ | ⟨symbol, provider, hi, -⟩
  · exact Exec.forEach_congr (agreesOn_linked h store) sink slot value seen store
  · cases hi

theorem construct_eq {kind : Kind} {args : List Scalar} {code : Code} (h : unit.CallsLinked kind)
    (hp : unit.Provides ⟨.construct args, kind⟩ code) (record : List UInt8) (store : Store) :
    unit.construct code record store =
      Exec.construct unit.provided kind args record store := by
  rcases hp with ⟨-, rfl⟩ | ⟨symbol, provider, hi, -⟩
  · exact Exec.construct_congr (agreesOn_linked h store) args record store
  · cases kind <;> cases hi

/-- Releasing a combinator runs its body. -/
theorem release_eq {kind : Kind} {code : Code} (h : unit.CallsLinked kind)
    (hp : unit.Provides ⟨.release, kind⟩ code)
    (hl : (⟨.release, kind⟩ : Entry).provision = .lowered) (state : UInt64) (store : Store) :
    unit.release code state store = Exec.release unit.provided kind state store := by
  rcases hp with ⟨-, rfl⟩ | ⟨symbol, provider, hi, -⟩
  · exact Exec.release_congr (agreesOn_linked h store) state store
  · rw [hl] at hi
    cases hi

/-- Releasing what was made of an iterable runs its symbol. -/
theorem release_made_eq {kind : Kind} {code : Code} (hr : kind.releasesMade = true)
    (hp : unit.Provides ⟨.release, kind.iteratorKind⟩ code) (iterator : UInt64) (store : Store) :
    unit.release code iterator store = Exec.releaseMade unit.provided kind iterator store := by
  unfold Kind.releasesMade at hr
  rw [Bool.and_eq_true] at hr
  obtain ⟨howned, hneeds⟩ := hr
  cases kind with
  | enumerate => simp [Kind.ownership, Kind.isIterator] at howned
  | zip => simp [Kind.ownership, Kind.isIterator] at howned
  | generator => simp [Kind.ownership, Kind.isIterator] at howned
  | external ext => cases ext with
    | iterator => simp [Kind.ownership, Kind.isIterator, External.isIterator] at howned
    | iterable name yields getiter made => cases made with
      | iterable => cases hneeds
      | iterator iname iyields next release => cases release with
        | none => cases hneeds
        | some symbol =>
          rcases hp with ⟨hl, -⟩ | ⟨symbol', provider, hi, hprov, rfl⟩
          · cases hl
          · cases hi
            simp only [release, Code.release, Exec.releaseMade, provided, hprov]

end Compiled

end PullIter
