import Mathlib.Logic.Relation
import PullIter.Proofs.Shared.Role
import PullIter.Proofs.Tree.Denotation

/-!
# What only moves on

Whatever is called for shared objects, an object only moves on: the index of an iterator over an
array and the number that a range is at grow, a generator is resumed, and the sources of a combinator
stay what they are.  A later store is one in which every object has moved on or has ended.

## Main definitions

* `Cast` — the roles of some objects.
* `Cast.Fits` — what an object of a role looks like.
* `Role.Passes` — an object of a role moves on.
* `Staged` — a store in which the objects fit their roles.
* `Later` — a store in which they have moved on, or have ended.
* `Still` — a later store in which nothing was advanced.

## Main results

* `Later.trans`, `Staged.later` — moving on goes on.
* `Staged.later_set`, `Staged.later_of_still` — what moves a store on.
* `Store.later_arrayNext`, `Store.later_rangeNext`, `Store.later_generatorNext` — a step of a
  leaf moves the store on.
-/

namespace PullIter

open Store (Made)

/-! ### Objects that move on -/

namespace Generator

/-- What a generator has ended with is an end. -/
def Proper (generator : Generator) : Prop :=
  ∀ outcome, generator.finished = some outcome → outcome.isFinal = true

/-- A generator that was resumed any number of times. -/
def Resumed : Generator → Generator → Prop :=
  Relation.ReflTransGen fun before after => ∃ outcome, before.resume = .ok (outcome, after)

theorem proper_start (yields : Yields) (failure : Option Int32) : (start yields failure).Proper :=
  fun _ h => by cases h

theorem Proper.resume {generator after : Generator} {outcome : Resumption} (h : generator.Proper)
    (hr : generator.resume = .ok (outcome, after)) : after.Proper := by
  unfold Generator.resume at hr
  split at hr
  · cases hr
    exact h
  · split at hr
    · cases hr
    · next ended body hb =>
      cases hr
      intro found hf
      simp only at hf
      split at hf
      · next hfinal => cases hf; exact hfinal
      · cases hf

theorem Proper.resumed {generator after : Generator} (h : generator.Proper)
    (hr : generator.Resumed after) : after.Proper := by
  induction hr with
  | refl => exact h
  | tail _ last ih =>
    obtain ⟨outcome, hlast⟩ := last
    exact ih.resume hlast

end Generator

/-- The roles of some objects. -/
abbrev Cast := List (UInt64 × Role)

/-- An object looks like one of a role.  The objects that it refers to have roles as well. -/
inductive Cast.Fits (cast : Cast) : Role → Cell → Prop
  | array {elements : List Int64} {calls : Nat} (short : elements.length < UInt64.size) :
      Fits cast .array (.array elements calls)
  | elements {block : Block} {words : Words} (array : (words.peek 0, .array) ∈ cast) :
      Fits cast .elements (.block block words)
  | range (block : Block) (words : Words) : Fits cast .range (.block block words)
  | generator {generator : Generator} (proper : generator.Proper) :
      Fits cast .generator (.generator generator)
  | enumerate {role : Role} {block : Block} {words : Words}
      (source : (words.peek Layout.sourceIndex, role) ∈ cast) :
      Fits cast (.enumerate role) (.block block words)
  | zip {roles : List Role} {block : Block} {words : Words}
      (sources : ∀ (i : Nat) (role : Role), roles[i]? = some role → (words.peek i, role) ∈ cast) :
      Fits cast (.zip roles) (.block block words)

/-- An object of a role moves on. -/
inductive Role.Passes : Role → Cell → Cell → Prop
  | array (elements : List Int64) (calls calls' : Nat) :
      Passes .array (.array elements calls) (.array elements calls')
  | elements {block : Block} {words words' : Words} (array : words'.peek 0 = words.peek 0)
      (index : (words.peek 1).toNat ≤ (words'.peek 1).toNat) :
      Passes .elements (.block block words) (.block block words')
  | range {block : Block} {words words' : Words} (stop : words'.peek 1 = words.peek 1)
      (number : (words.peek 0).toInt64 ≤ (words'.peek 0).toInt64) :
      Passes .range (.block block words) (.block block words')
  | generator {generator generator' : Generator} (resumed : generator.Resumed generator') :
      Passes .generator (.generator generator) (.generator generator')
  | enumerate (role : Role) {block : Block} {words words' : Words}
      (source : words'.peek Layout.sourceIndex = words.peek Layout.sourceIndex) :
      Passes (.enumerate role) (.block block words) (.block block words')
  | zip {roles : List Role} {block : Block} {words words' : Words}
      (sources : ∀ i < roles.length, words'.peek i = words.peek i) :
      Passes (.zip roles) (.block block words) (.block block words')

namespace Role.Passes

variable {role : Role} {a b c : Cell}

theorem refl {cast : Cast} (h : cast.Fits role a) : role.Passes a a := by
  cases h with
  | array => exact .array ..
  | elements => exact .elements rfl (Nat.le_refl _)
  | range => exact .range rfl (Int64.le_refl _)
  | generator => exact .generator .refl
  | enumerate => exact .enumerate _ rfl
  | zip => exact .zip fun _ _ => rfl

theorem trans (h : role.Passes a b) (h' : role.Passes b c) : role.Passes a c := by
  cases h with
  | array => cases h' with
    | array => exact .array ..
  | elements array index => cases h' with
    | elements array' index' => exact .elements (array'.trans array) (Nat.le_trans index index')
  | range stop number => cases h' with
    | range stop' number' => exact .range (stop'.trans stop) (Int64.le_trans number number')
  | generator resumed => cases h' with
    | generator resumed' => exact .generator (resumed.trans resumed')
  | enumerate _ source => cases h' with
    | enumerate _ source' => exact .enumerate _ (source'.trans source)
  | zip sources => cases h' with
    | zip sources' => exact .zip fun i hi => (sources' i hi).trans (sources i hi)

/-- What moves on fits its role as before. -/
theorem fits {cast : Cast} (h : role.Passes a b) (hf : cast.Fits role a) : cast.Fits role b := by
  cases h with
  | array => cases hf with
    | array short => exact .array short
  | elements array => cases hf with
    | elements found => exact .elements (by rw [array]; exact found)
  | range => exact .range ..
  | generator resumed => cases hf with
    | generator proper => exact .generator (proper.resumed resumed)
  | enumerate _ source => cases hf with
    | enumerate found => exact .enumerate (by rw [source]; exact found)
  | zip sources => cases hf with
    | zip found =>
      refine .zip fun i role hi => ?_
      rw [sources i (List.getElem?_eq_some_iff.mp hi).1]
      exact found i role hi

end Role.Passes

theorem Cast.Fits.mono {cast more : Cast} {role : Role} {cell : Cell} (h : cast.Fits role cell)
    (hsub : cast ⊆ more) : more.Fits role cell := by
  cases h with
  | array short => exact .array short
  | elements array => exact .elements (hsub array)
  | range => exact .range ..
  | generator proper => exact .generator proper
  | enumerate source => exact .enumerate (hsub source)
  | zip sources => exact .zip fun i role hi => hsub (sources i role hi)

/-! ### Stores -/

/-- A store in which the objects fit their roles. -/
structure Staged (cast : Cast) (store : Store) : Prop where
  wellFormed : store.WellFormed
  bound : ∀ {address role}, (address, role) ∈ cast → address.toNat < store.unused
  unique : ∀ {address role other}, (address, role) ∈ cast → (address, other) ∈ cast → role = other
  fits : ∀ {address role cell}, (address, role) ∈ cast → store.get? address = some cell →
    cast.Fits role cell

/-- A later store: every object has moved on, or has ended. -/
structure Later (cast : Cast) (before after : Store) : Prop where
  passes : ∀ {address role cell}, (address, role) ∈ cast → after.get? address = some cell →
    ∃ old, before.get? address = some old ∧ role.Passes old cell
  unused : before.unused ≤ after.unused
  wellFormed : before.WellFormed → after.WellFormed

namespace Later

variable {cast : Cast} {a b c : Store}

theorem trans (h : Later cast a b) (h' : Later cast b c) : Later cast a c where
  passes := by
    intro address role cell hm hc
    obtain ⟨mid, hb, hpass'⟩ := h'.passes hm hc
    obtain ⟨old, ha, hpass⟩ := h.passes hm hb
    exact ⟨old, ha, hpass.trans hpass'⟩
  unused := Nat.le_trans h.unused h'.unused
  wellFormed hwf := h'.wellFormed (h.wellFormed hwf)

theorem mono {fewer : Cast} (h : Later cast a b) (hsub : fewer ⊆ cast) : Later fewer a b :=
  ⟨fun hm => h.passes (hsub hm), h.unused, h.wellFormed⟩

end Later

/-- A later store in which nothing was advanced: what is still there is as it was. -/
structure Still (cast : Cast) (before after : Store) : Prop where
  kept : ∀ {address role cell}, (address, role) ∈ cast → after.get? address = some cell →
    before.get? address = some cell
  unused : before.unused ≤ after.unused
  wellFormed : before.WellFormed → after.WellFormed

namespace Still

variable {cast : Cast} {store after last : Store}

theorem trans (h : Still cast store after) (h' : Still cast after last) : Still cast store last :=
  ⟨fun hm hc => h.kept hm (h'.kept hm hc), Nat.le_trans h.unused h'.unused,
    fun hwf => h'.wellFormed (h.wellFormed hwf)⟩

theorem mono {fewer : Cast} (h : Still cast store after) (hsub : fewer ⊆ cast) :
    Still fewer store after :=
  ⟨fun hm => h.kept (hsub hm), h.unused, h.wellFormed⟩

/-- Stores that hold the same objects differ in what is counted and logged only. -/
theorem of_cells_eq (hc : after.cells = store.cells) (hu : after.unused = store.unused) :
    Still cast store after where
  kept := by
    intro address role cell _ hcell
    rw [← hcell]
    unfold Store.get?
    rw [hc]
  unused := Nat.le_of_eq hu.symm
  wellFormed := (Store.frame_of_cells_eq hc hu : Store.Frame (fun _ => False) _ _).wellFormed

/-- An object without a role is changed. -/
theorem set_of_not_mem {address : UInt64} (cell : Cell) (hm : ∀ role, (address, role) ∉ cast) :
    Still cast store (store.set address cell) where
  kept := by
    intro other role found hm' hfound
    have hne : other ≠ address := fun heq => hm role (heq ▸ hm')
    rwa [Store.get?_set_of_ne hne] at hfound
  unused := Nat.le_refl _
  wellFormed := (Store.frame_set cell (Store.only_self address)).wellFormed

/-- An object ends. -/
theorem erase (address : UInt64) : Still cast store (store.erase address) where
  kept := by
    intro other role found hm hfound
    have hne : other ≠ address := by
      rintro rfl
      rw [Store.get?_erase_self] at hfound
      cases hfound
    rwa [Store.get?_erase_of_ne hne] at hfound
  unused := Nat.le_refl _
  wellFormed := (Store.frame_erase (Store.only_self address)).wellFormed

/-- An object is made. -/
theorem of_made (h : Staged cast store) {address : UInt64} {cell : Cell}
    (hmade : Made store address cell after) : Still cast store after where
  kept := by
    intro other role found hm hfound
    have hne : other ≠ address := by
      rintro rfl
      exact absurd (h.bound hm) (Nat.not_lt.mpr hmade.unused)
    rwa [hmade.other hne] at hfound
  unused := Nat.le_of_lt (Nat.lt_of_le_of_lt hmade.unused hmade.bound)
  wellFormed := hmade.wellFormed

end Still

namespace Staged

variable {cast : Cast} {store after : Store}

theorem nil (h : store.WellFormed) : Staged [] store :=
  ⟨h, fun hm => absurd hm List.not_mem_nil, fun hm => absurd hm List.not_mem_nil,
    fun hm => absurd hm List.not_mem_nil⟩

/-- **What has moved on** fits its role as before. -/
theorem later (h : Staged cast store) (hl : Later cast store after) : Staged cast after where
  wellFormed := hl.wellFormed h.wellFormed
  bound hm := Nat.lt_of_lt_of_le (h.bound hm) hl.unused
  unique := h.unique
  fits := by
    intro address role cell hm hc
    obtain ⟨old, hold, hpass⟩ := hl.passes hm hc
    exact hpass.fits (h.fits hm hold)

/-- Where nothing was advanced, everything has moved on. -/
theorem later_of_still (h : Staged cast store) (hs : Still cast store after) :
    Later cast store after where
  passes := by
    intro address role cell hm hcell
    have hold := hs.kept hm hcell
    exact ⟨cell, hold, .refl (h.fits hm hold)⟩
  unused := hs.unused
  wellFormed := hs.wellFormed

/-- Stores that hold the same objects differ in what is counted and logged only. -/
theorem later_of_cells_eq (h : Staged cast store) (hc : after.cells = store.cells)
    (hu : after.unused = store.unused) : Later cast store after :=
  h.later_of_still (.of_cells_eq hc hu)

theorem later_refl (h : Staged cast store) : Later cast store store := h.later_of_cells_eq rfl rfl

/-- Noting a call changes no object. -/
theorem called (h : Staged cast store) (call : Call) : Staged cast (store.called call) :=
  h.later (h.later_of_cells_eq rfl rfl)

/-- **An object that moves on** moves the store on. -/
theorem later_set (h : Staged cast store) {address : UInt64} {role : Role} {old cell : Cell}
    (hm : (address, role) ∈ cast) (hold : store.get? address = some old)
    (hpass : role.Passes old cell) : Later cast store (store.set address cell) where
  passes := by
    intro other role' found hm' hfound
    by_cases heq : other = address
    · subst heq
      obtain rfl := h.unique hm hm'
      rw [Store.get?_set_self hold] at hfound
      cases hfound
      exact ⟨old, hold, hpass⟩
    · rw [Store.get?_set_of_ne heq] at hfound
      exact ⟨found, hfound, .refl (h.fits hm' hfound)⟩
  unused := Nat.le_refl _
  wellFormed := (Store.frame_set cell (Store.only_self address)).wellFormed

/-- An object without a role is given one. -/
theorem cons (h : Staged cast store) {address : UInt64} {role : Role}
    (hbound : address.toNat < store.unused) (hfresh : ∀ role, (address, role) ∉ cast)
    (hfits : ∀ cell, store.get? address = some cell → cast.Fits role cell) :
    Staged ((address, role) :: cast) store where
  wellFormed := h.wellFormed
  bound := by
    intro other role' hm
    rcases List.mem_cons.mp hm with heq | hm
    · cases heq; exact hbound
    · exact h.bound hm
  unique := by
    intro other role' role'' hm hm'
    rcases List.mem_cons.mp hm with heq | hm <;> rcases List.mem_cons.mp hm' with heq' | hm'
    · cases heq; cases heq'; rfl
    · cases heq; exact absurd hm' (hfresh _)
    · cases heq'; exact absurd hm (hfresh _)
    · exact h.unique hm hm'
  fits := by
    intro other role' cell hm hc
    have hsub : cast ⊆ (address, role) :: cast := List.subset_cons_self ..
    rcases List.mem_cons.mp hm with heq | hm
    · cases heq; exact (hfits cell hc).mono hsub
    · exact (h.fits hm hc).mono hsub

/-- What is at an address that was never used has no role. -/
theorem not_mem (h : Staged cast store) {address : UInt64} (hle : store.unused ≤ address.toNat)
    (role : Role) : (address, role) ∉ cast :=
  fun hm => absurd (h.bound hm) (Nat.not_lt.mpr hle)

end Staged

/-! ### Leaves -/

namespace Store

variable {cast : Cast} {store : Store} {address : UInt64} {step : Step}

/-- What the advance of an iterator over an array does: the array counts it, and the index moves on
if there is an element. -/
theorem arrayNext_eq_ok (h : Staged cast store) (hm : (address, .elements) ∈ cast)
    (hs : store.arrayNext address = .ok step) : ∃ block words elements calls,
      store.get? address = some (.block block words) ∧ (words.peek 0, .array) ∈ cast ∧
      store.get? (words.peek 0) = some (.array elements calls) ∧ elements.length < UInt64.size ∧
      ((∃ value, elements[(words.peek 1).toNat]? = some value ∧
          step = ⟨Status.ok, [.word value],
            (store.set (words.peek 0) (.array elements (calls + 1))).set address
              (.block block (words.poke 1 (words.peek 1 + 1)))⟩) ∨
        elements[(words.peek 1).toNat]? = none ∧
          step = ⟨Status.stop, [], store.set (words.peek 0) (.array elements (calls + 1))⟩) := by
  obtain ⟨block, words, hcell, hcases⟩ := arrayNext_cases hs
  cases h.fits hm hcell with
  | elements harray =>
  rcases hcases with ⟨elements, calls, ha, hcases⟩ | ⟨⟨other, zeros, hz⟩, -⟩
  · cases h.fits harray ha with
    | array short => exact ⟨block, words, elements, calls, hcell, harray, ha, short, hcases⟩
  · cases h.fits harray hz

/-- An index below the number of elements does not wrap. -/
theorem toNat_add_one_of_lt {index : UInt64} {length : Nat} (h : index.toNat < length)
    (hshort : length < UInt64.size) : (index + 1).toNat = index.toNat + 1 := by
  rw [UInt64.toNat_add]
  exact Nat.mod_eq_of_lt (show index.toNat + 1 < UInt64.size by omega)

theorem later_arrayNext (h : Staged cast store) (hm : (address, .elements) ∈ cast)
    (hs : store.arrayNext address = .ok step) : Later cast store step.store := by
  obtain ⟨block, words, elements, calls, hcell, harray, ha, hshort, hcases⟩ :=
    arrayNext_eq_ok h hm hs
  have hcount := h.later_set harray ha (.array elements calls (calls + 1))
  rcases hcases with ⟨value, hv, rfl⟩ | ⟨-, rfl⟩
  · have hlt : (words.peek 1).toNat < elements.length := (List.getElem?_eq_some_iff.mp hv).1
    have hne : address ≠ words.peek 0 := by
      intro heq
      rw [← heq, hcell] at ha
      cases ha
    refine hcount.trans ((h.later hcount).later_set hm
      (by rw [get?_set_of_ne hne, hcell]) (.elements ?_ ?_))
    · exact Words.peek_poke_of_ne (by decide) _ _
    · rw [Words.peek_poke_self, toNat_add_one_of_lt hlt hshort]
      exact Nat.le_succ _
  · exact hcount

theorem later_rangeNext (h : Staged cast store) (hm : (address, .range) ∈ cast)
    (hs : store.rangeNext address = .ok step) : Later cast store step.store := by
  obtain ⟨block, words, words', hcell, hstop, hstore, -, hcases⟩ := rangeNext_eq_ok hs
  rw [hstore]
  refine h.later_set hm hcell (.range hstop ?_)
  rcases hcases with ⟨hlt, hnumber, -⟩ | ⟨-, hnumber, -⟩
  · -- the number is below another one, so its successor does not wrap
    have hnext := toInt_add_one_of_lt hlt
    rw [hnumber, UInt64.toInt64_add, Int64.le_iff_toInt_le]
    exact (Int.le_add_one (Int.le_refl _)).trans (Int.le_of_eq hnext.symm)
  · rw [hnumber]
    exact Int64.le_refl _

theorem later_generatorNext (h : Staged cast store) (hm : (address, .generator) ∈ cast)
    (hs : store.generatorNext address = .ok step) : Later cast store step.store := by
  obtain ⟨generator, outcome, generator', hg, hr, rfl⟩ := generatorNext_eq_ok hs
  exact h.later_set hm hg (.generator (.single ⟨outcome, hr⟩))

end Store

end PullIter
