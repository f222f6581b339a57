import PullIter.Proofs.Exec.Runtime

/-!
# What an object is used as

Arrays, ranges, coroutines and the combinators over them are shared: several combinators may have one
source, and the host may hold any of them as well.  Whoever shares an object uses it as the same
thing.  That is its role, which is all that a kind says about it but for the names of generators.

## Main definitions

* `Role` — what an object is used as.
* `Kind.role?` — the role of the iterators of values of a kind.
* `Linkage.runtime` — every symbol is the built-in routine of its name.

## Main results

* `Kind.roleCases` — the kinds of each role.
* `Exec.next_leaf` — how the leaves are advanced.
* `Compiled.agreesOn_runtime` — **a unit in which no built-in symbol is overridden** runs the
  built-in routines.
-/

namespace PullIter

/-- What an object is used as. -/
inductive Role
  /-- An array, which iterators are made of. -/
  | array
  /-- An iterator over an array. -/
  | elements
  | range
  | generator
  /-- The state of an enumerate. -/
  | enumerate (source : Role)
  /-- The state of a zip. -/
  | zip (sources : List Role)

/-- The routine that advances a leaf of the role. -/
def Role.routine? : Role → Option Intrinsic
  | elements => some .arrayNext
  | range => some .rangeNext
  | generator => some .generatorResume
  | array | enumerate _ | zip _ => none

namespace Kind

/-- What `getiter` makes of an array, as a kind of its own. -/
def arrayIterator : Kind := array.iteratorKind

mutual

/-- The role of the iterators of values of a kind, if its leaves are arrays, ranges and
coroutines. -/
def role? : Kind → Option Role
  | enumerate source => (role? source).map .enumerate
  | zip sources => (roles? sources).map .zip
  | generator name yields resume =>
    if generator name yields resume = coroutine name then some .generator else none
  | external ext =>
    if external ext = array ∨ external ext = arrayIterator then some .elements
    else if external ext = range then some .range
    else none

/-- The roles of the iterators of values of some kinds. -/
def roles? : List Kind → Option (List Role)
  | [] => some []
  | kind :: kinds =>
    match role? kind, roles? kinds with
    | some role, some roles => some (role :: roles)
    | _, _ => none

end

/-- The kinds of each role. -/
inductive RoleCases : Kind → Role → Prop
  | array : RoleCases array .elements
  | iterator : RoleCases arrayIterator .elements
  | range : RoleCases range .range
  | coroutine (name : String) : RoleCases (coroutine name) .generator
  | enumerate {source : Kind} {role : Role} (source_role : source.role? = some role) :
      RoleCases (enumerate source) (.enumerate role)
  | zip {sources : List Kind} {roles : List Role} (source_roles : roles? sources = some roles) :
      RoleCases (zip sources) (.zip roles)

theorem roleCases {kind : Kind} {role : Role} (h : kind.role? = some role) :
    RoleCases kind role := by
  cases kind with
  | enumerate source =>
    rw [role?, Option.map_eq_some_iff] at h
    obtain ⟨found, hfound, rfl⟩ := h
    exact .enumerate hfound
  | zip sources =>
    rw [role?, Option.map_eq_some_iff] at h
    obtain ⟨found, hfound, rfl⟩ := h
    exact .zip hfound
  | generator name yields resume =>
    rw [role?] at h
    split at h
    · next heq =>
      rw [heq]
      cases h
      exact .coroutine name
    · cases h
  | external ext =>
    rw [role?] at h
    split at h
    · next harray =>
      cases h
      rcases harray with heq | heq
      · rw [heq]; exact .array
      · rw [heq]; exact .iterator
    · split at h
      · next hrange =>
        rw [hrange]
        cases h
        exact .range
      · cases h

theorem role?_coroutine (name : String) : (coroutine name).role? = some .generator := by
  rw [coroutine, role?]
  exact if_pos rfl

theorem roles?_replicate {kind : Kind} {role : Role} (h : kind.role? = some role) (n : Nat) :
    roles? (List.replicate n kind) = some (List.replicate n role) := by
  induction n with
  | zero => rfl
  | succ n ih => rw [List.replicate_succ, roles?, h, ih, List.replicate_succ]

theorem roles?_eq_nil {kinds : List Kind} (h : roles? kinds = some []) : kinds = [] := by
  cases kinds with
  | nil => rfl
  | cons kind kinds =>
    rw [roles?] at h
    split at h <;> cases h

theorem roles?_eq_cons {kinds : List Kind} {role : Role} {roles : List Role}
    (h : roles? kinds = some (role :: roles)) : ∃ kind rest, kinds = kind :: rest ∧
      kind.role? = some role ∧ roles? rest = some roles := by
  cases kinds with
  | nil => cases h
  | cons kind kinds =>
    rw [roles?] at h
    split at h
    · next hrole hroles => cases h; exact ⟨kind, kinds, rfl, hrole, hroles⟩
    · cases h

/-! ### Symbols -/

mutual

/-- The symbols of a kind that has a role are built in. -/
theorem exists_routine_of_role? : ∀ {kind : Kind} {role : Role}, kind.role? = some role →
    ∀ symbol ∈ kind.symbols, ∃ routine : Intrinsic, symbol = routine.name
  | enumerate source, role, h, symbol, hm => by
    cases roleCases h with
    | enumerate hsource => exact exists_routine_of_role? hsource symbol hm
  | zip sources, role, h, symbol, hm => by
    cases roleCases h with
    | zip hsources => exact exists_routine_of_roles? hsources symbol hm
  | generator name yields resume, role, h, symbol, hm => by
    cases roleCases h with
    | coroutine => exact ⟨.generatorResume, List.mem_singleton.mp hm⟩
  | external ext, role, h, symbol, hm => by
    cases roleCases h with
    | array =>
      have hsymbols : symbol ∈ [Intrinsic.arrayGetiter.name, Intrinsic.arrayNext.name,
          Intrinsic.arrayRelease.name] := hm
      simp only [List.mem_cons, List.not_mem_nil, or_false] at hsymbols
      rcases hsymbols with rfl | rfl | rfl
      · exact ⟨_, rfl⟩
      · exact ⟨_, rfl⟩
      · exact ⟨_, rfl⟩
    | iterator =>
      have hsymbols : symbol ∈ [Intrinsic.arrayNext.name, Intrinsic.arrayRelease.name] := hm
      simp only [List.mem_cons, List.not_mem_nil, or_false] at hsymbols
      rcases hsymbols with rfl | rfl
      · exact ⟨_, rfl⟩
      · exact ⟨_, rfl⟩
    | range =>
      have hsymbols : symbol ∈ [Intrinsic.rangeNext.name, Intrinsic.rangeRelease.name] := hm
      simp only [List.mem_cons, List.not_mem_nil, or_false] at hsymbols
      rcases hsymbols with rfl | rfl
      · exact ⟨_, rfl⟩
      · exact ⟨_, rfl⟩

theorem exists_routine_of_roles? : ∀ {kinds : List Kind} {roles : List Role},
    roles? kinds = some roles → ∀ symbol ∈ symbolsList kinds,
      ∃ routine : Intrinsic, symbol = routine.name
  | [], _, _, _, hm => by cases hm
  | kind :: kinds, [], h, _, _ => by cases roles?_eq_nil h
  | kind :: kinds, role :: roles, h, symbol, hm => by
    obtain ⟨_, _, heq, hrole, hroles⟩ := roles?_eq_cons h
    cases heq
    rw [symbolsList, List.mem_append] at hm
    rcases hm with hm | hm
    · exact exists_routine_of_role? hrole symbol hm
    · exact exists_routine_of_roles? hroles symbol hm

end

end Kind

/-! ### Built-in routines -/

/-- Every symbol is the built-in routine of its name. -/
def Linkage.runtime : Linkage where
  next symbol iterator store :=
    match Provider.ofIntrinsics.lookup symbol with
    | none => .error (.noCode symbol)
    | some provider => provider.linkedNext iterator store
  getiter symbol value store :=
    match Provider.ofIntrinsics.lookup symbol with
    | none => .error (.noCode symbol)
    | some provider => provider.linkedGetiter value store
  release symbol iterator store :=
    match Provider.ofIntrinsics.lookup symbol with
    | none => .error (.noCode symbol)
    | some provider => provider.linkedRelease iterator store
  alloc := (Provider.intrinsic .alloc).linkedAlloc
  free := (Provider.intrinsic .free).linkedFree

namespace Exec

open Linkage (runtime)
open Compiled (lookup_ofIntrinsics)

/-- **A leaf is advanced** by the routine of its role. -/
theorem next_leaf {kind : Kind} {role : Role} {routine : Intrinsic} (h : kind.role? = some role)
    (hr : role.routine? = some routine) (iterator : UInt64) (store : Store) :
    next runtime kind iterator store =
      (Provider.intrinsic routine).linkedNext iterator store := by
  have hnext : ∀ routine : Intrinsic, runtime.next routine.name iterator store =
      (Provider.intrinsic routine).linkedNext iterator store := fun routine => by
    simp only [runtime, lookup_ofIntrinsics]
  cases Kind.roleCases h with
  | array => cases hr; exact (by rw [Kind.array, next, hnext])
  | iterator =>
    cases hr
    rw [Kind.arrayIterator, Kind.array, Kind.iteratorKind, External.made, next, hnext]
  | range => cases hr; exact (by rw [Kind.range, next, hnext])
  | coroutine name => cases hr; exact (by rw [Kind.coroutine, next_generator, hnext])
  | enumerate => cases hr
  | zip => cases hr

end Exec

namespace Compiled

variable {unit : Compiled}

/-- **A unit in which no built-in symbol is overridden** runs the built-in routines. -/
theorem agreesOn_runtime (h : unit.RunsRuntime) {kind : Kind} {role : Role}
    (hk : kind.role? = some role) : unit.provided.AgreesOn kind.symbols Linkage.runtime := by
  constructor
  · intro symbol hs
    obtain ⟨routine, rfl⟩ := Kind.exists_routine_of_role? hk symbol hs
    funext iterator store
    simp only [provided, Linkage.runtime, h routine, lookup_ofIntrinsics]
  · intro symbol hs
    obtain ⟨routine, rfl⟩ := Kind.exists_routine_of_role? hk symbol hs
    funext value store
    simp only [provided, Linkage.runtime, h routine, lookup_ofIntrinsics]
  · intro symbol hs
    obtain ⟨routine, rfl⟩ := Kind.exists_routine_of_role? hk symbol hs
    funext iterator store
    simp only [provided, Linkage.runtime, h routine, lookup_ofIntrinsics]
  · funext layout store
    simp only [provided, Linkage.runtime, h .alloc]
  · funext layout state store
    simp only [provided, Linkage.runtime, h .free]

/-- No lowered body takes the place of a symbol of a kind that has a role. -/
theorem callsLinked_of_role? {kind : Kind} {role : Role} (hk : kind.role? = some role) :
    unit.CallsLinked kind :=
  callsLinked_of_intrinsic (Kind.exists_routine_of_role? hk)

end Compiled

end PullIter
