import PullIter.Proofs.Ownership.Operands
import PullIter.Proofs.Shared.Step

/-!
# Making and ending shared objects

An object that is made is given a role, and what it refers to has roles already.  An object that
ends is not used any more.  Neither advances anything.

## Main definitions

* `Kind.valueRole?`, `Cast.Offers` — a value of a kind.
* `Grows` — objects were made and given roles.

## Main results

* `Exec.getiter_eq_ok`, `Exec.releaseMade_eq_ok` — what is done with the iterator of a value.
* `Exec.grows_getiter`, `Exec.grows_construct` — an iterator and a combinator are made.
* `Exec.still_releaseMade`, `Exec.still_release` — they end.
-/

namespace PullIter

open Store (Made)

/-- The role of the values of a kind.  Iterators are made of arrays, and any other value is an
iterator. -/
def Kind.valueRole? (kind : Kind) : Option Role :=
  if kind = .array then some .array else kind.role?

/-- There is a value of the kind at the address. -/
def Cast.Offers (cast : Cast) (kind : Kind) (value : UInt64) : Prop :=
  ∃ role, kind.valueRole? = some role ∧ (value, role) ∈ cast

theorem Cast.Offers.mono {cast more : Cast} {kind : Kind} {value : UInt64}
    (h : cast.Offers kind value) (hsub : cast ⊆ more) : more.Offers kind value := by
  obtain ⟨role, hk, hm⟩ := h
  exact ⟨role, hk, hsub hm⟩

/-- A value of a kind that is no array is an iterator of the kind. -/
theorem Cast.Offers.mem {cast : Cast} {kind : Kind} {role : Role} {value : UInt64}
    (h : cast.Offers kind value) (hne : kind ≠ .array) (hk : kind.role? = some role) :
    (value, role) ∈ cast := by
  obtain ⟨found, hfound, hm⟩ := h
  rw [Kind.valueRole?, if_neg hne, hk] at hfound
  cases hfound
  exact hm

theorem Cast.Offers.mem_array {cast : Cast} {value : UInt64} (h : cast.Offers .array value) :
    (value, .array) ∈ cast := by
  obtain ⟨found, hfound, hm⟩ := h
  rw [Kind.valueRole?, if_pos rfl] at hfound
  cases hfound
  exact hm

/-- What is offered has iterators. -/
theorem Cast.Offers.exists_role {cast : Cast} {kind : Kind} {value : UInt64}
    (h : cast.Offers kind value) : ∃ role, kind.role? = some role := by
  obtain ⟨role, hk, -⟩ := h
  unfold Kind.valueRole? at hk
  split at hk
  · next harray => rw [harray]; exact ⟨.elements, rfl⟩
  · exact ⟨role, hk⟩

/-! ### Growing -/

/-- An object of a role that has just been made: nobody has asked it for a step. -/
def Role.Fresh : Role → Cell → Prop
  | .array, .array _ calls => calls = 0
  | .elements, .block _ words => words.peek 1 = 0
  | _, _ => True

/-- Objects were made and given roles, others have ended, and nothing was advanced. -/
structure Grows (cast : Cast) (store : Store) (more : Cast) (after : Store) : Prop where
  subset : cast ⊆ more
  staged : Staged more after
  still : Still cast store after
  fresh : ∀ {address role}, (address, role) ∈ more → (address, role) ∈ cast ∨
    store.unused ≤ address.toNat ∧ ∀ cell, after.get? address = some cell → role.Fresh cell

namespace Grows

variable {cast more most : Cast} {store after last : Store}

theorem refl (h : Staged cast store) : Grows cast store cast store :=
  ⟨List.Subset.refl _, h, .of_cells_eq rfl rfl, .inl⟩

theorem trans (h : Grows cast store more after) (h' : Grows more after most last) :
    Grows cast store most last where
  subset _ hm := h'.subset (h.subset hm)
  staged := h'.staged
  still := h.still.trans (h'.still.mono h.subset)
  fresh := by
    intro address role hm
    rcases h'.fresh hm with hm | ⟨hle, hfresh⟩
    · rcases h.fresh hm with hold | ⟨hle, hfresh⟩
      · exact .inl hold
      · exact .inr ⟨hle, fun cell hc => hfresh cell (h'.still.kept hm hc)⟩
    · exact .inr ⟨Nat.le_trans h.still.unused hle, hfresh⟩

/-- What has no role has none afterwards. -/
theorem not_mem (h : Grows cast store more after) {address : UInt64}
    (hlt : address.toNat < store.unused) (hnone : ∀ role, (address, role) ∉ cast) (role : Role) :
    (address, role) ∉ more := by
  intro hm
  rcases h.fresh hm with hm | ⟨hle, -⟩
  · exact hnone role hm
  · omega

/-- Nothing is given a role. -/
theorem still_after (h : Grows cast store more after) (hs : Still more after last) :
    Grows cast store more last :=
  h.trans ⟨List.Subset.refl _, h.staged.later (h.staged.later_of_still hs), hs, .inl⟩

/-- An object that has been made for a role is given it. -/
theorem give {state : UInt64} {role : Role} {cell : Cell} (h : Grows cast store more after)
    (hunused : store.unused ≤ state.toNat) (hbound : state.toNat < after.unused)
    (hnone : ∀ role, (state, role) ∉ more) (hg : after.get? state = some cell)
    (hfits : more.Fits role cell) (hfresh : role.Fresh cell) :
    Grows cast store ((state, role) :: more) after where
  subset _ hm := List.mem_cons_of_mem _ (h.subset hm)
  staged := by
    refine h.staged.cons hbound hnone fun found hf => ?_
    rw [hg] at hf
    cases hf
    exact hfits
  still := h.still
  fresh := by
    intro other found hm
    rcases List.mem_cons.mp hm with heq | hm
    · cases heq
      refine .inr ⟨hunused, fun found hf => ?_⟩
      rw [hg] at hf
      cases hf
      exact hfresh
    · exact h.fresh hm

/-- **An object that was made** is given a role that it fits. -/
theorem of_made {address : UInt64} {role : Role} {cell : Cell} (h : Staged cast store)
    (hmade : Made store address cell after) (hfits : cast.Fits role cell)
    (hfresh : role.Fresh cell) : Grows cast store ((address, role) :: cast) after :=
  ((Grows.refl h).still_after (.of_made h hmade)).give hmade.unused hmade.bound
    (h.not_mem hmade.unused) (hmade.found h.wellFormed) hfits hfresh

/-- Counting and noting change no object. -/
theorem of_cells_eq (h : Grows cast store more after) (hc : last.cells = after.cells)
    (hu : last.unused = after.unused) : Grows cast store more last :=
  h.still_after (.of_cells_eq hc hu)

theorem later (h : Grows cast store more after) (hs : Staged cast store) : Later cast store after :=
  hs.later_of_still h.still

end Grows

/-- An object ends, whatever is counted and noted. -/
theorem Still.of_erased {cast : Cast} {store after : Store} {address : UInt64}
    (hc : after.cells = (store.erase address).cells) (hu : after.unused = store.unused) :
    Still cast store after :=
  (Still.erase address).trans (.of_cells_eq hc hu)

/-! ### Objects of the host -/

namespace Store

variable {cast : Cast} {store after : Store} {address : UInt64}

theorem grows_newArray (h : Staged cast store) {elements : List Int64}
    (hs : store.newArray elements = .ok (address, after)) :
    Grows cast store ((address, .array) :: cast) after := by
  unfold newArray at hs
  split at hs
  · cases hs
  · next hle =>
    obtain ⟨made, mid, hmade, heq⟩ := made_of_map (by decide) (by decide) hs
    cases heq
    have hshort : elements.length < UInt64.size := by
      have hmax : maxBlockSize < UInt64.size := by decide
      omega
    exact (Grows.of_made h hmade (.array hshort) rfl).of_cells_eq rfl rfl

theorem grows_newRange (h : Staged cast store) {start stop : Int64}
    (hs : store.newRange start stop = .ok (address, after)) :
    Grows cast store ((address, .range) :: cast) after := by
  obtain ⟨made, mid, hmade, heq⟩ := made_of_map (by decide) (by decide) hs
  cases heq
  exact (Grows.of_made h hmade (.range ..) trivial).of_cells_eq rfl rfl

theorem grows_newGenerator (h : Staged cast store) {generator : Generator}
    (hproper : generator.Proper) (hs : store.newGenerator generator = .ok (address, after)) :
    Grows cast store ((address, .generator) :: cast) after :=
  Grows.of_made h (alloc_spec (by decide) (by decide) hs) (.generator hproper) trivial

/-- An iterator over an array is made. -/
theorem arrayGetiter_eq_ok {array : UInt64} (hs : store.arrayGetiter array = .ok (address, after)) :
    ∃ mid, Made store address (.block ⟨16, 8⟩ [array, 0]) mid ∧ after = mid.count .arrayIter 1 := by
  obtain ⟨made, mid, hmade, heq⟩ := made_of_map (by decide) (by decide) hs
  cases heq
  exact ⟨mid, hmade, rfl⟩

theorem grows_arrayGetiter (h : Staged cast store) {array : UInt64} (hm : (array, .array) ∈ cast)
    (hs : store.arrayGetiter array = .ok (address, after)) :
    Grows cast store ((address, .elements) :: cast) after := by
  obtain ⟨mid, hmade, rfl⟩ := arrayGetiter_eq_ok hs
  exact (Grows.of_made h hmade (.elements hm) rfl).of_cells_eq rfl rfl

theorem still_dropArray (hs : store.dropArray address = .ok after) :
    Still cast store after := by
  unfold dropArray at hs
  split at hs
  · cases hs
    exact .of_erased rfl rfl
  · cases hs

theorem still_arrayRelease (hs : store.arrayRelease address = .ok after) :
    Still cast store after := by
  rcases arrayRelease_eq_ok hs with ⟨-, rfl⟩ | rfl
  · exact .of_cells_eq rfl rfl
  · exact .of_erased rfl rfl

theorem still_rangeRelease (hs : store.rangeRelease address = .ok after) :
    Still cast store after := by
  rcases rangeRelease_eq_ok hs with ⟨-, rfl⟩ | rfl
  · exact .of_cells_eq rfl rfl
  · exact .of_erased rfl rfl

theorem still_freeBlock {size align : Int} {tag : Int32}
    (hs : store.freeBlock address size align tag = .ok after) : Still cast store after := by
  rcases freeBlock_eq_ok hs with ⟨-, rfl⟩ | rfl
  · exact .of_cells_eq rfl rfl
  · exact .of_erased rfl rfl

end Store

/-! ### Iterators of values -/

namespace Exec

open Linkage (runtime)
open Compiled (lookup_ofIntrinsics)

variable {cast : Cast} {kind : Kind} {role : Role} {value iterator : UInt64} {store after : Store}

theorem arrayIterator_ne_array : Kind.arrayIterator ≠ .array := by decide

/-- **The iterator of a value** is a new object if the value is an array, and the value otherwise. -/
theorem getiter_eq_ok (hk : kind.role? = some role)
    (hs : getiter runtime kind value store = .ok (iterator, after)) :
    kind ≠ .array ∧ iterator = value ∧ after = store ∨
      kind = .array ∧ role = .elements ∧ ∃ made, store.arrayGetiter value = .ok (iterator, made) ∧
        after = made.called (.getiter (.intrinsic .arrayGetiter) value iterator) := by
  have hself : kind.getiterSymbol? = none → iterator = value ∧ after = store := by
    intro hnone
    rw [getiter, hnone] at hs
    cases hs
    exact ⟨rfl, rfl⟩
  cases Kind.roleCases hk with
  | array =>
    right
    have hsymbol : Kind.array.getiterSymbol? = some Intrinsic.arrayGetiter.name := rfl
    rw [getiter, hsymbol] at hs
    simp only [runtime, lookup_ofIntrinsics, Provider.linkedGetiter, Provider.getiter] at hs
    cases hmade : store.arrayGetiter value with
    | error fault => rw [hmade] at hs; cases hs
    | ok made => rw [hmade] at hs; cases hs; exact ⟨rfl, rfl, made.2, rfl, rfl⟩
  | iterator => exact .inl ⟨arrayIterator_ne_array, hself rfl⟩
  | range => exact .inl ⟨by decide, hself rfl⟩
  | coroutine name => exact .inl ⟨(fun h => by cases h), hself rfl⟩
  | enumerate => exact .inl ⟨(fun h => by cases h), hself rfl⟩
  | zip => exact .inl ⟨(fun h => by cases h), hself rfl⟩

/-- **An iterator is made** of a value. -/
theorem grows_getiter (h : Staged cast store) (hk : kind.role? = some role)
    (ho : cast.Offers kind value)
    (hs : getiter runtime kind value store = .ok (iterator, after)) :
    ∃ more, Grows cast store more after ∧ (iterator, role) ∈ more := by
  rcases getiter_eq_ok hk hs with ⟨hne, rfl, rfl⟩ | ⟨rfl, rfl, made, hmade, rfl⟩
  · exact ⟨cast, .refl h, ho.mem hne hk⟩
  · exact ⟨_, (Store.grows_arrayGetiter h ho.mem_array hmade).of_cells_eq rfl rfl,
      List.mem_cons_self ..⟩

/-- It changes nothing that was there before. -/
theorem get?_getiter (hk : kind.role? = some role)
    (hs : getiter runtime kind value store = .ok (iterator, after)) {address : UInt64}
    (hlt : address.toNat < store.unused) : after.get? address = store.get? address := by
  rcases getiter_eq_ok hk hs with ⟨-, -, rfl⟩ | ⟨-, -, made, hmade, rfl⟩
  · rfl
  · obtain ⟨mid, hmid, rfl⟩ := Store.arrayGetiter_eq_ok hmade
    refine hmid.other fun heq => ?_
    have hle := hmid.unused
    rw [← heq] at hle
    omega

/-- **What was made of a value** is released if the value is an array. -/
theorem releaseMade_eq_ok (hk : kind.role? = some role)
    (hs : releaseMade runtime kind iterator store = .ok after) :
    kind ≠ .array ∧ after = store ∨ kind = .array ∧ ∃ released,
      store.arrayRelease iterator = .ok released ∧
      after = released.called (.release (.intrinsic .arrayRelease) iterator) := by
  cases Kind.roleCases hk with
  | array =>
    right
    rw [Kind.array, releaseMade] at hs
    simp only [runtime, lookup_ofIntrinsics, Provider.linkedRelease, Provider.release] at hs
    cases hr : store.arrayRelease iterator with
    | error fault => rw [hr] at hs; cases hs
    | ok released => rw [hr] at hs; cases hs; exact ⟨rfl, released, rfl, rfl⟩
  | iterator => cases hs; exact .inl ⟨arrayIterator_ne_array, rfl⟩
  | range => cases hs; exact .inl ⟨by decide, rfl⟩
  | coroutine name => cases hs; exact .inl ⟨(fun h => by cases h), rfl⟩
  | enumerate => cases hs; exact .inl ⟨(fun h => by cases h), rfl⟩
  | zip => cases hs; exact .inl ⟨(fun h => by cases h), rfl⟩

theorem still_releaseMade (hk : kind.role? = some role)
    (hs : releaseMade runtime kind iterator store = .ok after) : Still cast store after := by
  rcases releaseMade_eq_ok hk hs with ⟨-, rfl⟩ | ⟨-, released, hr, rfl⟩
  · exact .of_cells_eq rfl rfl
  · exact (Store.still_arrayRelease hr).trans (.of_cells_eq rfl rfl)

/-! ### Combinators -/

/-- Iterators of the sources of a zip are made and stored into its state, which has no role yet. -/
theorem grows_storeSources {layout : Layout} {record : List UInt8} {state : UInt64} {block : Block} :
    ∀ {roles : List Role} {kinds : List Kind} {index : Nat} {words : Words} {cast : Cast}
      {store : Store}, Staged cast store → Kind.roles? kinds = some roles →
      (∀ role, (state, role) ∉ cast) → state.toNat < store.unused →
      store.get? state = some (.block block words) →
      (∀ (i : Nat) (kind : Kind), kinds[i]? = some kind → ∃ operand,
        loadArg layout (index + i) record = .ok operand ∧ cast.Offers kind operand) →
      storeSources runtime layout record state kinds index store = .ok after →
      ∃ more words', Grows cast store more after ∧ (∀ role, (state, role) ∉ more) ∧
        after.get? state = some (.block block words') ∧
        (∀ i < index, words'.peek i = words.peek i) ∧
        ∀ (i : Nat) (role : Role), roles[i]? = some role → (words'.peek (index + i), role) ∈ more := by
  intro roles
  induction roles with
  | nil =>
    intro kinds index words cast store h hk hstate hlt hg _ hs
    obtain rfl := Kind.roles?_eq_nil hk
    cases hs
    exact ⟨cast, words, .refl h, hstate, hg, fun _ _ => rfl, fun i role hi => by cases hi⟩
  | cons role roles ih =>
    intro kinds index words cast store h hk hstate hlt hg hoffers hs
    obtain ⟨kind, rest, rfl, hrole, hroles⟩ := Kind.roles?_eq_cons hk
    obtain ⟨operand, hload, hoffer⟩ := hoffers 0 kind rfl
    obtain ⟨found, iterator, mid, stored, hfound, hget, hstored, hs⟩ := exists_of_storeSources_cons hs
    cases hfound.symm.trans hload
    obtain ⟨more, hgrows, hmade⟩ := grows_getiter h hrole hoffer hget
    have hcell := get?_getiter hrole hget hlt
    rw [hg] at hcell
    have hstate' := hgrows.not_mem hlt hstate
    rw [Store.poke_of_get? hcell] at hstored
    cases hstored
    -- the word is stored into what has no role yet
    have hpoked := hgrows.still_after
      (.set_of_not_mem (.block block (words.poke index iterator)) hstate')
    obtain ⟨most, words', hrest, hnone, hlast, hsame, hsources⟩ := ih
      hpoked.staged hroles hstate' (Nat.lt_of_lt_of_le hlt hpoked.still.unused)
      (Store.get?_set_self hcell)
      (fun i source hi => by
        obtain ⟨operand, hload, hoffer⟩ := hoffers (i + 1) source hi
        rw [Nat.add_assoc, Nat.add_comm 1 i]
        exact ⟨operand, hload, hoffer.mono hgrows.subset⟩) hs
    obtain ⟨hword, hbefore⟩ := peek_of_poked hsame
    refine ⟨most, words', hpoked.trans hrest, hnone, hlast, hbefore, fun i found hi => ?_⟩
    cases i with
    | zero =>
      cases hi
      rw [Nat.add_zero, hword]
      exact hrest.subset hmade
    | succ i =>
      rw [Nat.add_comm i 1, ← Nat.add_assoc]
      exact hsources i found hi

/-- Storage for the state of a combinator has no role yet. -/
theorem grows_alloc {layout : Layout} {state : UInt64} (h : Staged cast store)
    (hs : runtime.alloc layout store = .ok (state, after)) :
    Grows cast store cast after ∧ store.unused ≤ state.toNat ∧ state.toNat < after.unused ∧
      ∃ block, after.get? state = some (.block block []) := by
  obtain ⟨block, mid, -, hmade, rfl⟩ := Provider.linkedAlloc_eq_ok hs
  have hgrows : Grows cast store cast mid := (Grows.refl h).still_after (.of_made h hmade)
  exact ⟨hgrows.of_cells_eq rfl rfl, hmade.unused, hmade.bound, block, hmade.found h.wellFormed⟩

/-- An enumerate is made. -/
theorem grows_construct_enumerate {source : Kind} {args : List Scalar} {record : List UInt8}
    {operand state : UInt64} (h : Staged cast store) (hk : source.role? = some role)
    (hload : loadArg (Layout.enumerateArgs targetPointerBytes args) 0 record = .ok operand)
    (ho : cast.Offers source operand)
    (hs : construct runtime (.enumerate source) args record store = .ok (state, after)) :
    ∃ more, Grows cast store ((state, .enumerate role) :: more) after := by
  obtain ⟨found, start, iterator, mid, empty, counted, hfound, -, hget, halloc, hcount, hstore⟩ :=
    exists_of_construct_enumerate hs
  cases hfound.symm.trans hload
  obtain ⟨more, hgrows, hmade⟩ := grows_getiter h hk ho hget
  obtain ⟨halloced, hunused, hbound, block, hcell⟩ := grows_alloc hgrows.staged halloc
  have hnone : ∀ role, (state, role) ∉ more := hgrows.staged.not_mem hunused
  obtain ⟨rfl, rfl, hcell'⟩ := eq_of_poke_enumerate hcell hcount hstore
  have hcounted := (hgrows.trans halloced).still_after (.set_of_not_mem
    (.block block (Words.poke [] Layout.countIndex start.toUInt64)) hnone)
  -- the state has its words before it is given its role
  have hstored := hcounted.still_after (.set_of_not_mem
    (.block block ((Words.poke [] Layout.countIndex start.toUInt64).poke Layout.sourceIndex
      iterator)) hnone)
  refine ⟨more, hstored.give (Nat.le_trans hgrows.still.unused hunused) hbound hnone
    (Store.get?_set_self hcell') (.enumerate ?_) trivial⟩
  rw [Words.peek_poke_self]
  exact hmade

/-- A zip is made. -/
theorem grows_construct_zip {sources : List Kind} {roles : List Role} {args : List Scalar}
    {record : List UInt8} {state : UInt64} (h : Staged cast store)
    (hk : Kind.roles? sources = some roles)
    (hoffers : ∀ (i : Nat) (source : Kind), sources[i]? = some source → ∃ operand,
      loadArg (Layout.zipArgs targetPointerBytes args) i record = .ok operand ∧
      cast.Offers source operand)
    (hs : construct runtime (.zip sources) args record store = .ok (state, after)) :
    ∃ more, Grows cast store ((state, .zip roles) :: more) after := by
  obtain ⟨empty, halloc, hstored⟩ := exists_of_construct_zip hs
  obtain ⟨halloced, hunused, hbound, block, hcell⟩ := grows_alloc h halloc
  obtain ⟨more, words, hgrows, hnone, hlast, -, hsources⟩ := grows_storeSources halloced.staged hk
    (h.not_mem hunused) hbound hcell (fun i source hi => by
      rw [Nat.zero_add]
      exact hoffers i source hi) hstored
  refine ⟨more, (halloced.trans hgrows).give hunused
    (Nat.lt_of_lt_of_le hbound hgrows.still.unused) hnone hlast (.zip fun i role hi => ?_)
    trivial⟩
  have hsource := hsources i role hi
  rwa [Nat.zero_add] at hsource

/-- **A combinator is made** of values. -/
theorem grows_construct {args : List Arg} {layout : Layout} {state : UInt64} (h : Staged cast store)
    (hk : kind.role? = some role) (hc : kind.checkConstructor (args.map Arg.kind) = .ok ())
    (hl : Entry.argsLayout? kind (args.map Arg.kind) = some layout)
    (ho : ∀ (i : Nat) (source : Kind) (operand : UInt64), kind.sources[i]? = some source →
      (Arg.pointers args)[i]? = some operand → cast.Offers source operand)
    (hs : construct runtime kind (args.map Arg.kind) (Arg.record layout args) store =
      .ok (state, after)) :
    ∃ more, Grows cast store ((state, role) :: more) after := by
  obtain ⟨hlen, hload⟩ := loadArg_pointers hc hl
  have hoffers : ∀ (i : Nat) (source : Kind), kind.sources[i]? = some source → ∃ operand,
      loadArg layout i (Arg.record layout args) = .ok operand ∧ cast.Offers source operand := by
    intro i source hi
    have hlt : i < (Arg.pointers args).length := by
      rw [hlen]
      exact (List.getElem?_eq_some_iff.mp hi).1
    have hoperand := List.getElem?_eq_getElem hlt
    exact ⟨_, hload i _ hoperand, ho i source _ hi hoperand⟩
  cases Kind.roleCases hk with
  | enumerate hsource =>
    cases hl
    obtain ⟨operand, hload, hoffer⟩ := hoffers 0 _ rfl
    exact grows_construct_enumerate h hsource hload hoffer hs
  | zip hsources =>
    cases hl
    exact grows_construct_zip h hsources hoffers hs
  | array => cases hl
  | iterator => cases hl
  | range => cases hl
  | coroutine => cases hl

/-- What was made of the sources of a zip is released. -/
theorem still_releaseSources {state : UInt64} : ∀ {kinds : List Kind} {roles : List Role}
    {index : Nat} {store : Store}, Kind.roles? kinds = some roles →
    releaseSources runtime kinds state index store = .ok after → Still cast store after := by
  intro kinds
  induction kinds with
  | nil => intro roles index store _ hs; cases hs; exact .of_cells_eq rfl rfl
  | cons kind kinds ih =>
    intro roles index store hk hs
    cases roles with
    | nil => cases Kind.roles?_eq_nil hk
    | cons role roles =>
      obtain ⟨_, _, heq, hrole, hroles⟩ := Kind.roles?_eq_cons hk
      cases heq
      obtain ⟨iterator, mid, hreleased, -, hrest⟩ := exists_of_releaseSources_cons hs
      exact (still_releaseMade hrole hreleased).trans (ih hroles hrest)

/-- **A combinator is released.** -/
theorem still_release {state : UInt64} (hk : kind.role? = some role)
    (hs : release runtime kind state store = .ok after) : Still cast store after := by
  have hfree : ∀ {layout : Layout} {store : Store},
      runtime.free layout state store = .ok after → Still cast store after := by
    intro layout store hf
    simp only [runtime, Provider.linkedFree, Provider.free] at hf
    cases hr : store.freeBlock state layout.size layout.align AllocKind.combinatorState.tag with
    | error fault => rw [hr] at hf; cases hf
    | ok freed =>
      rw [hr] at hf
      cases hf
      exact (Store.still_freeBlock hr).trans (.of_cells_eq rfl rfl)
  cases Kind.roleCases hk with
  | enumerate hsource =>
    obtain ⟨iterator, mid, hreleased, -, hrest⟩ := exists_of_release_enumerate hs
    exact (still_releaseMade hsource hreleased).trans (hfree hrest)
  | zip hsources =>
    obtain ⟨mid, hreleased, hrest⟩ := exists_of_release_zip hs
    exact (still_releaseSources hsources hreleased).trans (hfree hrest)
  | array => cases hs
  | iterator => cases hs
  | range => cases hs
  | coroutine => cases hs

end Exec

end PullIter
