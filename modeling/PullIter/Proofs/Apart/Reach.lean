import Mathlib.Logic.Function.Iterate
import PullIter.Proofs.Shared.Step

/-!
# What is reached and what is left alone

An iterator reaches itself and what its sources reach.  An array is behind any number of iterators
and is reached by none: all that they do to it is that it counts their calls.

## Main definitions

* `Store.reach` — the objects that an iterator reaches.
* `Work`, `Moves` — what a run does outside of some objects.
* `Agree` — two stores hold the same objects as far as a run can tell.
* `Paired` — two runs do the same work.

## Main results

* `Store.reach_later` — moving on, an iterator reaches nothing new.
* `Moves.trans`, `Paired.trans` — runs compose.
* `Agree.moves` — stores that agree go on to do so.
-/

namespace PullIter

/-! ### Reachable objects -/

namespace Store

mutual

/-- The objects that an iterator of a role reaches.  Arrays do not count. -/
def reach (store : Store) : Role → UInt64 → List UInt64
  | .array, _ => []
  | .elements, iterator | .range, iterator | .generator, iterator => [iterator]
  | .enumerate role, state =>
    state :: match store.get? state with
      | none => []
      | some cell => reach store role (cell.words.peek Layout.sourceIndex)
  | .zip roles, state =>
    state :: match store.get? state with
      | none => []
      | some cell => reachFrom store roles cell.words 0

/-- The objects that the iterators among the words of a zip reach, from an index on. -/
def reachFrom (store : Store) : List Role → Words → Nat → List UInt64
  | [], _, _ => []
  | role :: roles, words, index =>
    reach store role (words.peek index) ++ reachFrom store roles words (index + 1)

end

variable {cast : Cast} {store after : Store}

mutual

/-- **Moving on**, an iterator reaches nothing new. -/
theorem reach_later : ∀ (role : Role) {address : UInt64}, Staged cast store →
    Later cast store after → (address, role) ∈ cast →
    after.reach role address ⊆ store.reach role address
  | .array, address, h, hl, hm => by rw [reach]; exact List.nil_subset _
  | .elements, address, h, hl, hm => by rw [reach, reach]; exact List.Subset.refl _
  | .range, address, h, hl, hm => by rw [reach, reach]; exact List.Subset.refl _
  | .generator, address, h, hl, hm => by rw [reach, reach]; exact List.Subset.refl _
  | .enumerate role, address, h, hl, hm => by
    rw [reach, reach]
    refine List.cons_subset_cons _ ?_
    split
    · exact List.nil_subset _
    · next cell hc =>
      -- an object that is still there has the sources that it had before
      obtain ⟨old, hold, hpass⟩ := hl.passes hm hc
      have hfits := h.fits hm hold
      simp only [hold]
      cases hpass with
      | enumerate _ source =>
        cases hfits with
        | enumerate hsource =>
          simp only [Cell.words, source]
          exact reach_later role h hl hsource
  | .zip roles, address, h, hl, hm => by
    rw [reach, reach]
    refine List.cons_subset_cons _ ?_
    split
    · exact List.nil_subset _
    · next cell hc =>
      obtain ⟨old, hold, hpass⟩ := hl.passes hm hc
      have hfits := h.fits hm hold
      simp only [hold]
      cases hpass with
      | zip same =>
        cases hfits with
        | zip hsources =>
          refine reachFrom_later roles h hl fun i role hi => ?_
          rw [Nat.zero_add]
          exact ⟨same i (List.getElem?_eq_some_iff.mp hi).1, hsources i role hi⟩

/-- Nor do the sources of a zip. -/
theorem reachFrom_later : ∀ (roles : List Role) {words words' : Words} {index : Nat},
    Staged cast store → Later cast store after →
    (∀ (i : Nat) (role : Role), roles[i]? = some role →
      words'.peek (index + i) = words.peek (index + i) ∧ (words.peek (index + i), role) ∈ cast) →
    after.reachFrom roles words' index ⊆ store.reachFrom roles words index
  | [], words, words', index, h, hl, hall => by rw [reachFrom]; exact List.nil_subset _
  | role :: roles, words, words', index, h, hl, hall => by
    obtain ⟨hsame, hm⟩ := hall 0 role rfl
    rw [Nat.add_zero] at hsame hm
    rw [reachFrom, reachFrom, hsame]
    have hfirst := reach_later role h hl hm
    have hrest := @reachFrom_later roles words words' (index + 1) h hl fun i role hi => by
      rw [Nat.add_assoc, Nat.add_comm 1 i]
      exact hall (i + 1) role hi
    exact List.append_subset.mpr ⟨List.subset_append_of_subset_left _ hfirst,
      List.subset_append_of_subset_right _ hrest⟩

end

mutual

/-- **What is reached** has a role, and is no array. -/
theorem exists_role_of_mem_reach : ∀ (role : Role) {address other : UInt64}, Staged cast store →
    (address, role) ∈ cast → other ∈ store.reach role address →
    ∃ found, (other, found) ∈ cast ∧ found ≠ .array
  | .array, address, other, h, hm, ho => by rw [reach] at ho; exact absurd ho List.not_mem_nil
  | .elements, address, other, h, hm, ho => by
    rw [reach, List.mem_singleton] at ho
    subst ho
    exact ⟨_, hm, nofun⟩
  | .range, address, other, h, hm, ho => by
    rw [reach, List.mem_singleton] at ho
    subst ho
    exact ⟨_, hm, nofun⟩
  | .generator, address, other, h, hm, ho => by
    rw [reach, List.mem_singleton] at ho
    subst ho
    exact ⟨_, hm, nofun⟩
  | .enumerate role, address, other, h, hm, ho => by
    rw [reach] at ho
    rcases List.mem_cons.mp ho with rfl | ho
    · exact ⟨_, hm, nofun⟩
    · split at ho
      · exact absurd ho List.not_mem_nil
      · next cell hc =>
        cases h.fits hm hc with
        | enumerate hsource => exact exists_role_of_mem_reach role h hsource ho
  | .zip roles, address, other, h, hm, ho => by
    rw [reach] at ho
    rcases List.mem_cons.mp ho with rfl | ho
    · exact ⟨_, hm, nofun⟩
    · split at ho
      · exact absurd ho List.not_mem_nil
      · next cell hc =>
        cases h.fits hm hc with
        | zip hsources =>
          refine exists_role_of_mem_reachFrom roles h (fun i role hi => ?_) ho
          rw [Nat.zero_add]
          exact hsources i role hi

theorem exists_role_of_mem_reachFrom : ∀ (roles : List Role) {words : Words} {index : Nat}
    {other : UInt64}, Staged cast store →
    (∀ (i : Nat) (role : Role), roles[i]? = some role → (words.peek (index + i), role) ∈ cast) →
    other ∈ store.reachFrom roles words index → ∃ found, (other, found) ∈ cast ∧ found ≠ .array
  | [], words, index, other, h, hall, ho => by
    rw [reachFrom] at ho
    exact absurd ho List.not_mem_nil
  | role :: roles, words, index, other, h, hall, ho => by
    rw [reachFrom, List.mem_append] at ho
    rcases ho with ho | ho
    · exact exists_role_of_mem_reach role h (hall 0 role rfl) ho
    · refine exists_role_of_mem_reachFrom roles h (fun i role hi => ?_) ho
      rw [Nat.add_assoc, Nat.add_comm 1 i]
      exact hall (i + 1) role hi

end

end Store

/-! ### What is done elsewhere -/

/-- An array counts some more calls. -/
def Cell.tally (calls : Nat) : Cell → Cell
  | .array elements counted => .array elements (counted + calls)
  | cell => cell

namespace Cell

@[simp] theorem tally_zero (cell : Cell) : cell.tally 0 = cell := by cases cell <;> rfl

@[simp] theorem tally_tally (cell : Cell) (m n : Nat) :
    (cell.tally m).tally n = cell.tally (m + n) := by
  cases cell with
  | array elements counted => exact congrArg (Cell.array elements) (Nat.add_assoc ..)
  | generator => rfl
  | script => rfl
  | block => rfl

/-- What has counted is an array, and was one. -/
theorem tally_eq_array {cell : Cell} {calls counted : Nat} {elements : List Int64}
    (h : cell.tally calls = .array elements counted) :
    ∃ before, cell = .array elements before ∧ counted = before + calls := by
  cases cell with
  | array => cases h; exact ⟨_, rfl, rfl⟩
  | generator => cases h
  | script => cases h
  | block => cases h

/-- What is no array counts nothing. -/
theorem tally_eq_block {cell : Cell} {calls : Nat} {block : Block} {words : Words}
    (h : cell.tally calls = .block block words) : cell = .block block words := by
  cases cell with
  | array => cases h
  | generator => cases h
  | script => cases h
  | block => exact h

end Cell

/-- What a run does outside of the objects that it is about. -/
structure Work where
  /-- The calls that each array counts. -/
  counted : UInt64 → Nat
  /-- The number of iterators over arrays that are made, less the number of those that end. -/
  live : Int
  /-- The number of iterators over arrays that are made. -/
  made : Nat

namespace Work

instance : Zero Work := ⟨fun _ => 0, 0, 0⟩

instance : Add Work :=
  ⟨fun work more => ⟨fun array => work.counted array + more.counted array, work.live + more.live,
    work.made + more.made⟩⟩

/-- An array counts a call. -/
def call (array : UInt64) : Work := ⟨fun other => if other = array then 1 else 0, 0, 0⟩

/-- An iterator over an array is made. -/
def make : Work := ⟨fun _ => 0, 1, 1⟩

/-- An iterator over an array ends. -/
def finish : Work := ⟨fun _ => 0, -1, 0⟩

/-- Only arrays count calls. -/
def OnArrays (cast : Cast) (work : Work) : Prop :=
  ∀ array, work.counted array ≠ 0 → (array, .array) ∈ cast

@[simp] theorem counted_add (work more : Work) (array : UInt64) :
    (work + more).counted array = work.counted array + more.counted array := rfl

@[simp] theorem live_add (work more : Work) : (work + more).live = work.live + more.live := rfl

@[simp] theorem made_add (work more : Work) : (work + more).made = work.made + more.made := rfl

variable {cast : Cast} {work more : Work}

theorem OnArrays.zero (cast : Cast) : OnArrays cast 0 := fun _ h => absurd rfl h

theorem OnArrays.add (h : work.OnArrays cast) (h' : more.OnArrays cast) :
    (work + more).OnArrays cast := by
  intro array hne
  by_cases hw : work.counted array = 0
  · refine h' array fun hm => hne ?_
    rw [counted_add, hw, hm]
  · exact h array hw

theorem OnArrays.call {array : UInt64} (h : (array, .array) ∈ cast) :
    (call array).OnArrays cast := by
  intro other hne
  by_cases heq : other = array
  · rw [heq]; exact h
  · exact absurd (if_neg heq) hne

end Work

namespace Store

/-- The first address that was never used, once an iterator over an array was made. -/
def iterEnd (unused : Nat) : Nat := (unused + 8 - 1) / 8 * 8 + 16

theorem lt_iterEnd (unused : Nat) : unused < iterEnd unused := by
  unfold iterEnd
  omega

/-- The address that an iterator over an array gets. -/
def iterAddress (store : Store) : UInt64 := .ofNat (store.freshAddress 8)

end Store

theorem Counters.bump_bump (counters : Counters) (kind : AllocKind) (m n : Int) :
    (counters.bump kind m).bump kind n = counters.bump kind (m + n) := by
  cases kind <;> simp only [bump, Int.add_assoc]

@[simp] theorem Counters.bump_zero (counters : Counters) (kind : AllocKind) :
    counters.bump kind 0 = counters := by
  cases kind <;> simp only [bump, Int.add_zero]

/-- Some work is done, and whatever else is changed is some objects. -/
structure Moves (own : List UInt64) (work : Work) (before after : Store) : Prop where
  others : ∀ address ∉ own,
    after.get? address = (before.get? address).map (Cell.tally (work.counted address))
  unused : after.unused = Store.iterEnd^[work.made] before.unused
  counters : after.counters = before.counters.bump .arrayIter work.live
  copies : after.copies = before.copies
  events : after.events = before.events

namespace Moves

variable {own : List UInt64} {work more : Work} {store after last : Store}

theorem refl (own : List UInt64) (store : Store) : Moves own 0 store store where
  others := by
    intro address _
    cases store.get? address with
    | none => rfl
    | some cell => exact congrArg some cell.tally_zero.symm
  unused := rfl
  counters := (store.counters.bump_zero _).symm
  copies := rfl
  events := rfl

theorem trans (h : Moves own work store after) (h' : Moves own more after last) :
    Moves own (work + more) store last where
  others := by
    intro address ho
    rw [h'.others address ho, h.others address ho, Option.map_map]
    congr 1
    funext cell
    exact cell.tally_tally ..
  unused := by
    rw [h'.unused, h.unused, ← Function.iterate_add_apply, Work.made_add, Nat.add_comm]
  counters := by rw [h'.counters, h.counters, Counters.bump_bump, Work.live_add]
  copies := h'.copies.trans h.copies
  events := h'.events.trans h.events

theorem mono {all : List UInt64} (h : Moves own work store after) (hsub : own ⊆ all) :
    Moves all work store after :=
  ⟨fun address ho => h.others address fun hm => ho (hsub hm), h.unused, h.counters, h.copies,
    h.events⟩

theorem le_unused (h : Moves own work store after) : store.unused ≤ after.unused := by
  rw [h.unused]
  induction work.made with
  | zero => exact Nat.le_refl _
  | succ made ih =>
    rw [Function.iterate_succ_apply']
    exact Nat.le_trans ih (Nat.le_of_lt (Store.lt_iterEnd _))

/-- Noting a call is no work. -/
theorem called (h : Moves own work store after) (call : Call) :
    Moves own work store (after.called call) :=
  ⟨h.others, h.unused, h.counters, h.copies, h.events⟩

/-- An object is changed. -/
theorem set (store : Store) (address : UInt64) (cell : Cell) :
    Moves [address] 0 store (store.set address cell) where
  others := by
    intro other ho
    rw [Store.get?_set_of_ne fun heq => ho (List.mem_singleton.mpr heq)]
    exact (Moves.refl [address] store).others other ho
  unused := rfl
  counters := (store.counters.bump_zero _).symm
  copies := rfl
  events := rfl

/-- An array counts a call. -/
theorem call {array : UInt64} {elements : List Int64} {calls : Nat}
    (h : store.get? array = some (.array elements calls)) :
    Moves [] (.call array) store (store.set array (.array elements (calls + 1))) where
  others := by
    intro other _
    by_cases heq : other = array
    · subst heq
      rw [Store.get?_set_self h, h]
      exact congrArg some (congrArg (Cell.array elements) (congrArg (calls + ·) (if_pos rfl).symm))
    · rw [Store.get?_set_of_ne heq, show (Work.call array).counted other = 0 from if_neg heq]
      exact (Moves.refl [] store).others other List.not_mem_nil
  unused := rfl
  counters := (store.counters.bump_zero _).symm
  copies := rfl
  events := rfl

/-- An iterator over an array ends. -/
theorem finish (store : Store) (address : UInt64) :
    Moves [address] .finish store ((store.erase address).count .arrayIter (-1)) where
  others := by
    intro other ho
    have hne : other ≠ address := fun heq => ho (List.mem_singleton.mpr heq)
    rw [show ((store.erase address).count .arrayIter (-1)).get? other = store.get? other from
      Store.get?_erase_of_ne hne]
    exact (Moves.refl [address] store).others other ho
  unused := rfl
  counters := rfl
  copies := rfl
  events := rfl

/-- An array elsewhere has counted the calls. -/
theorem exists_array (h : Moves own work store after) {array : UInt64} (ho : array ∉ own)
    {elements : List Int64} {calls : Nat} (hc : after.get? array = some (.array elements calls)) :
    ∃ before, store.get? array = some (.array elements before) ∧
      calls = before + work.counted array := by
  rw [h.others array ho, Option.map_eq_some_iff] at hc
  obtain ⟨cell, hcell, htally⟩ := hc
  obtain ⟨before, rfl, hcount⟩ := Cell.tally_eq_array htally
  exact ⟨before, hcell, hcount⟩

/-- A block elsewhere stays what it is. -/
theorem get?_block (h : Moves own work store after) {address : UInt64} (ho : address ∉ own)
    {block : Block} {words : Words} (hc : after.get? address = some (.block block words)) :
    store.get? address = some (.block block words) := by
  rw [h.others address ho, Option.map_eq_some_iff] at hc
  obtain ⟨cell, hcell, htally⟩ := hc
  rwa [Cell.tally_eq_block htally] at hcell

/-- What the work leaves alone. -/
theorem get?_eq {cast : Cast} (h : Moves own work store after) (hw : work.OnArrays cast)
    {address : UInt64} (ho : address ∉ own) (hn : (address, .array) ∉ cast) :
    after.get? address = store.get? address := by
  have hzero : work.counted address = 0 := Decidable.byContradiction fun hne => hn (hw address hne)
  rw [h.others address ho, hzero]
  exact ((Moves.refl own store).others address ho).symm

end Moves

/-! ### Two stores -/

/-- Two stores hold the same objects of some, and an array with a role that is in the one is in the
other. -/
structure Agree (cast : Cast) (own : List UInt64) (store other : Store) : Prop where
  same : ∀ address ∈ own, other.get? address = store.get? address
  arrays : ∀ {array elements calls}, (array, .array) ∈ cast →
    store.get? array = some (.array elements calls) →
    ∃ calls', other.get? array = some (.array elements calls')

namespace Agree

variable {cast : Cast} {own part : List UInt64} {work : Work} {store other after after' : Store}

theorem refl (cast : Cast) (own : List UInt64) (store : Store) : Agree cast own store store :=
  ⟨fun _ _ => rfl, fun _ harray => ⟨_, harray⟩⟩

/-- **Stores that agree** go on to do so, if what is changed is changed alike. -/
theorem moves (h : Agree cast own store other) (hs : Moves part work store after)
    (ht : Moves part work other after')
    (hsame : ∀ address ∈ part, after'.get? address = after.get? address) :
    Agree cast own after after' where
  same := by
    intro address hm
    by_cases hp : address ∈ part
    · exact hsame address hp
    · rw [hs.others address hp, ht.others address hp, h.same address hm]
  arrays := by
    intro array elements calls hm harray
    by_cases hp : array ∈ part
    · exact ⟨calls, by rw [hsame array hp, harray]⟩
    · obtain ⟨before, hcell, -⟩ := hs.exists_array hp harray
      obtain ⟨calls', hother⟩ := h.arrays hm hcell
      rw [ht.others array hp, hother]
      exact ⟨_, rfl⟩

end Agree

/-- Two runs do the same work, each outside of some objects. -/
def Paired (cast : Cast) (own own' : List UInt64) (store other after after' : Store) : Prop :=
  ∃ work : Work, work.OnArrays cast ∧ work.made = 0 ∧ work.live = 0 ∧
    Moves own work store after ∧ Moves own' work other after'

namespace Paired

variable {cast : Cast} {own own' : List UInt64} {a b c a' b' c' : Store}

theorem refl (cast : Cast) (own own' : List UInt64) (a a' : Store) :
    Paired cast own own' a a' a a' :=
  ⟨0, .zero cast, rfl, rfl, .refl own a, .refl own' a'⟩

theorem trans (h : Paired cast own own' a a' b b') (h' : Paired cast own own' b b' c c') :
    Paired cast own own' a a' c c' := by
  obtain ⟨work, hw, hmade, hlive, hs, ht⟩ := h
  obtain ⟨more, hm, hmade', hlive', hs', ht'⟩ := h'
  refine ⟨work + more, hw.add hm, ?_, ?_, hs.trans hs', ht.trans ht'⟩
  · rw [Work.made_add, hmade, hmade']
  · rw [Work.live_add, hlive, hlive']
    rfl

end Paired

end PullIter
