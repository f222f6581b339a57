import Mathlib.Logic.Equiv.Basic
import PullIter.Proofs.Apart.Deed

/-!
# One deed after the other

Two deeds that are about different objects can be done in either order.  They are answered alike, and
they leave the same objects, the same counts of calls and the same counters.  Two iterators over
arrays that are made for them get their addresses in the order in which they are made.

## Main definitions

* `Deed.andThen` — one deed, and then another.
* `Store.Matches` — the same objects, at other addresses.

## Main results

* `Deed.later_of_run` — a deed only moves objects on.
* `Deed.exchange` — **two deeds about different objects** can be done in either order.
* `Deed.andThen_of_run` — both can be done, unless there is no storage.
-/

namespace PullIter

/-! ### Stores -/

/-- The same objects, at other addresses, and the same counters. -/
structure Store.Matches (rename : Equiv.Perm UInt64) (store other : Store) : Prop where
  cells : ∀ address, other.get? (rename address) = store.get? address
  unused : other.unused = store.unused
  counters : other.counters = store.counters
  copies : other.copies = store.copies
  events : other.events = store.events

namespace Store

variable {store other : Store}

theorem iterAddress_congr (h : store.unused = other.unused) :
    store.iterAddress = other.iterAddress := by
  rw [iterAddress, iterAddress, freshAddress, freshAddress, h]

/-- An iterator over an array gets an address that was never used, and takes it. -/
theorem unused_le_iterAddress (h : store.HasRoom) :
    store.unused ≤ store.iterAddress.toNat ∧ store.iterAddress.toNat < iterEnd store.unused := by
  obtain ⟨made, -, hmoves, mid, hmid, rfl⟩ := arrayGetiter_of_room h 0
  have hbound := hmid.bound
  rw [show mid.unused = _ from hmoves.unused] at hbound
  exact ⟨hmid.unused, hbound⟩

theorem mem_fresh {work : Work} {address : UInt64} :
    address ∈ store.fresh work ↔ work.made ≠ 0 ∧ address = store.iterAddress := by
  unfold fresh
  split
  · next hmade => exact ⟨fun h => absurd h List.not_mem_nil, fun h => absurd hmade h.1⟩
  · next hmade =>
    exact ⟨fun h => ⟨hmade, List.mem_singleton.mp h⟩, fun h => List.mem_singleton.mpr h.2⟩

/-- What is made is at an address that was not used before. -/
theorem le_of_mem_fresh {work : Work} {address : UInt64} (hroom : work.made ≠ 0 → store.HasRoom)
    (hm : address ∈ store.fresh work) : store.unused ≤ address.toNat := by
  obtain ⟨hmade, rfl⟩ := mem_fresh.mp hm
  exact (unused_le_iterAddress (hroom hmade)).1

end Store

/-! ### Deeds -/

namespace Deed

/-- One deed, and then another. -/
def andThen (first second : Deed) (store : Store) : Except Fault ((Answer × Answer) × Store) :=
  match first.run store with
  | .error fault => .error fault
  | .ok (answer, middle) =>
    (second.run middle).map fun result => ((answer, result.1), result.2)

variable {cast : Cast} {deed first second : Deed} {store other after : Store} {answer : Answer}

/-- What has moved on since is recorded of any calls. -/
theorem recorded_later (cast : Cast) (store : Store) :
    Recorded fun more after _ => cast ⊆ more ∧ Later cast store after where
  next hs h hk hi hn := ⟨h.1, h.2.trans ((Exec.later_next _ hs hk hi hn).mono h.1)⟩
  grows hs h hg :=
    ⟨fun _ hm => hg.subset (h.1 hm), h.2.trans ((hs.later_of_still hg.still).mono h.1)⟩

/-- **A deed** only moves objects on. -/
theorem later_of_run (hs : Staged cast store) (ht : deed.Typed cast)
    (hrun : deed.run store = .ok (answer, after)) : Later cast store after := by
  obtain ⟨more, hdone⟩ : ∃ more, Done _ cast store [] deed answer after more :=
    done_of_run (recorded_later cast store) hs ⟨List.Subset.refl _, hs.later_refl⟩ ht hrun
  exact hdone.recorded.2

/-- A deed is about what one object reaches. -/
theorem exists_reach_of_typed (ht : deed.Typed cast) : ∃ address role, (address, role) ∈ cast ∧
    ∀ store, deed.footprint store = store.reach role address := by
  obtain ⟨-, role, hk, ht⟩ := ht
  replace hk : deed.kind.role? = some role := hk
  cases deed with
  | iter unit kind value =>
    obtain ⟨found, hfound, hm⟩ := ht
    exact ⟨value, found, hm, fun store => by rw [footprint, hfound]⟩
  | forEach unit kind value trap slot =>
    obtain ⟨found, hfound, hm⟩ := ht.1
    exact ⟨value, found, hm, fun store => by rw [footprint, hfound]⟩
  | step unit kind handle =>
    simp only [Deed.kind] at hk
    exact ⟨handle.iterator, role, ht.2, fun store => by rw [footprint, hk]⟩
  | drain unit kind handle =>
    simp only [Deed.kind] at hk
    exact ⟨handle.iterator, role, ht.2, fun store => by rw [footprint, hk]⟩
  | drop unit kind handle =>
    simp only [Deed.kind] at hk
    exact ⟨handle.iterator, role, ht.2, fun store => by rw [footprint, hk]⟩

/-- What a deed is about has been made, and is no array. -/
theorem of_mem_footprint (hs : Staged cast store) (ht : deed.Typed cast) {address : UInt64}
    (hm : address ∈ deed.footprint store) :
    address.toNat < store.unused ∧ (address, .array) ∉ cast := by
  obtain ⟨root, role, hroot, hreach⟩ := exists_reach_of_typed ht
  rw [hreach] at hm
  obtain ⟨found, hfound, hne⟩ := Store.exists_role_of_mem_reach role hs hroot hm
  exact ⟨hs.bound hfound, fun harray => hne (hs.unique hfound harray)⟩

/-- What a deed is about does not grow. -/
theorem footprint_later (hs : Staged cast store) (hl : Later cast store after)
    (ht : deed.Typed cast) : deed.footprint after ⊆ deed.footprint store := by
  obtain ⟨root, role, hroot, hreach⟩ := exists_reach_of_typed ht
  rw [hreach, hreach]
  exact Store.reach_later role hs hl hroot

/-- What a deed does outside of the objects that it is about. -/
theorem exists_work (hs : Staged cast store) (ht : deed.Typed cast)
    (hrun : deed.run store = .ok (answer, after)) : ∃ work : Work, work.OnArrays cast ∧
      work.made ≤ 1 ∧ Moves (deed.footprint store ++ store.fresh work) work store after ∧
      (work.made ≠ 0 → store.HasRoom) := by
  rcases echoed_of_run hs hs ht (.refl ..) hrun with
    ⟨work, answer', after', hrun', -, h⟩ | ⟨-, -, hfull⟩
  · rw [hrun] at hrun'
    cases hrun'
    exact ⟨work, h.onArrays, h.made, h.moves, fun hmade => (h.room hmade).1⟩
  · rw [hrun] at hfull
    cases hfull

/-- **Stores agree** on what a deed is about, if only objects apart from it were changed. -/
theorem agree_of_moves {own : List UInt64} {work : Work} (hs : Staged cast store)
    (ht : deed.Typed cast) (hl : Later cast store after) (hw : work.OnArrays cast)
    (hmoves : Moves own work store after) (hown : ∀ address ∈ own, (address, .array) ∉ cast)
    (hdisj : ∀ address ∈ deed.footprint store, address ∉ own) :
    Agree cast (deed.footprint store) store after ∧
      Agree cast (deed.footprint after) after store := by
  have hsame : ∀ address ∈ deed.footprint store, after.get? address = store.get? address :=
    fun address hm => hmoves.get?_eq hw (hdisj address hm) (of_mem_footprint hs ht hm).2
  refine ⟨⟨hsame, fun {array elements calls} hm harray => ?_⟩,
    ⟨fun address hm => (hsame address (footprint_later hs hl ht hm)).symm,
      fun {array elements calls} hm harray => ?_⟩⟩
  · rw [hmoves.others array fun ho => hown array ho hm, harray]
    exact ⟨_, rfl⟩
  · obtain ⟨before, hbefore, -⟩ := hmoves.exists_array (fun ho => hown array ho hm) harray
    exact ⟨before, hbefore⟩

/-- **Another deed is done alike** before and after a deed that is apart from it. -/
theorem agree_of_run (hs : Staged cast store) (hfirst : first.Typed cast)
    (hsecond : second.Typed cast)
    (hdisj : (first.footprint store).Disjoint (second.footprint store))
    (hrun : first.run store = .ok (answer, after)) :
    Agree cast (second.footprint store) store after ∧
      Agree cast (second.footprint after) after store := by
  obtain ⟨work, hw, -, hmoves, hroom⟩ := exists_work hs hfirst hrun
  refine agree_of_moves hs hsecond (later_of_run hs hfirst hrun) hw hmoves (fun address ho => ?_)
    fun address hm ho => ?_
  · rcases List.mem_append.mp ho with ho | ho
    · exact (of_mem_footprint hs hfirst ho).2
    · exact hs.not_mem (Store.le_of_mem_fresh hroom ho) _
  · rcases List.mem_append.mp ho with ho | ho
    · exact hdisj ho hm
    · exact absurd (of_mem_footprint hs hsecond hm).1
        (Nat.not_lt.mpr (Store.le_of_mem_fresh hroom ho))

/-! ### Either order -/

/-- An exchange of two addresses, if both deeds make an iterator. -/
theorem exists_exchange {work more : Work} {middle middle' : Store} (hmade : work.made ≤ 1)
    (hmade' : more.made ≤ 1) (hunused : middle.unused = Store.iterEnd^[work.made] store.unused)
    (hunused' : middle'.unused = Store.iterEnd^[more.made] store.unused)
    (hroom : work.made ≠ 0 → store.HasRoom) (hroom' : more.made ≠ 0 → middle.HasRoom) :
    ∃ rename : Equiv.Perm UInt64, (rename = Equiv.refl _ ∨ work.made ≠ 0 ∧ more.made ≠ 0) ∧
      (∀ address, rename (rename address) = address) ∧
      (∀ address, address.toNat < store.unused → rename address = address) ∧
      (work.made ≠ 0 → rename store.iterAddress = middle'.iterAddress) ∧
      (more.made ≠ 0 → rename store.iterAddress = middle.iterAddress) ∧
      (work.made ≠ 0 → more.made ≠ 0 → store.iterAddress ≠ middle.iterAddress) ∧
      ∀ address, address ∉ store.fresh work → address ∉ middle.fresh more →
        rename address = address := by
  by_cases hw : work.made = 0
  · have hsame : middle.unused = store.unused := by rw [hunused, hw]; rfl
    exact ⟨Equiv.refl _, .inl rfl, fun _ => rfl, fun _ _ => rfl, fun h => absurd hw h,
      fun _ => Store.iterAddress_congr hsame.symm, fun h => absurd hw h, fun _ _ _ => rfl⟩
  by_cases hm : more.made = 0
  · have hsame : middle'.unused = store.unused := by rw [hunused', hm]; rfl
    exact ⟨Equiv.refl _, .inl rfl, fun _ => rfl, fun _ _ => rfl,
      fun _ => Store.iterAddress_congr hsame.symm, fun h => absurd hm h, fun _ h => absurd hm h,
      fun _ _ _ => rfl⟩
  -- both make an iterator, and each is at the address of the other if it is made first
  have hone : work.made = 1 := by omega
  have hone' : more.made = 1 := by omega
  rw [hone] at hunused
  rw [hone'] at hunused'
  obtain ⟨hle, hlt⟩ := Store.unused_le_iterAddress (hroom hw)
  have hle' := (Store.unused_le_iterAddress (hroom' hm)).1
  have hsecond : Store.iterEnd store.unused ≤ middle.iterAddress.toNat := by
    rw [hunused] at hle'
    exact hle'
  have hsame : middle'.iterAddress = middle.iterAddress :=
    Store.iterAddress_congr (hunused'.trans hunused.symm)
  have hne : store.iterAddress ≠ middle.iterAddress := by
    intro heq
    rw [← heq] at hsecond
    omega
  refine ⟨Equiv.swap store.iterAddress middle.iterAddress, .inr ⟨hw, hm⟩, Equiv.swap_apply_self _ _,
    fun address hold => Equiv.swap_apply_of_ne_of_ne ?_ ?_,
    fun _ => (Equiv.swap_apply_left _ _).trans hsame.symm, fun _ => Equiv.swap_apply_left _ _,
    fun _ _ => hne, fun address hw' hm' => Equiv.swap_apply_of_ne_of_ne
      (fun heq => hw' (Store.mem_fresh.mpr ⟨hw, heq⟩))
      fun heq => hm' (Store.mem_fresh.mpr ⟨hm, heq⟩)⟩
  · rintro rfl
    omega
  · rintro rfl
    have hgrows := Store.lt_iterEnd store.unused
    omega

theorem Answer.rename_rename {rename : UInt64 → UInt64}
    (hself : ∀ address, rename (rename address) = address) (answer : Answer) :
    (answer.rename rename).rename rename = answer := by
  cases answer with
  | made result =>
    cases result with
    | error e => rfl
    | ok handle => simp only [Answer.rename, Handle.rename, hself]
  | stepped outcome handle => simp only [Answer.rename, Handle.rename, hself]
  | drained values ending handle => simp only [Answer.rename, Handle.rename, hself]
  | dropped => rfl
  | looped result => rfl

section

variable {own own' : List UInt64} {work more : Work} {answer answer' reply reply' : Answer}
  {middle middle' last last' : Store} {address : UInt64}

/-- The objects of one deed are the same, whether it is done first or last. -/
theorem get?_of_mem_own (hown : address.toNat < store.unused ∧ (address, .array) ∉ cast)
    (hdisj : own.Disjoint own') (ha : Echoed cast own store middle' work answer answer' middle last')
    (hb : Echoed cast own' store middle more reply reply' middle' last) (hm : address ∈ own) :
    last'.get? address = last.get? address := by
  rw [ha.same address hm]
  refine (hb.moves'.get?_eq hb.onArrays (fun hm' => ?_) hown.2).symm
  rcases List.mem_append.mp hm' with hm' | hm'
  · exact hdisj hm hm'
  · have hle := Store.le_of_mem_fresh (fun h => (hb.room h).2) hm'
    exact absurd hown.1 (Nat.not_lt.mpr (Nat.le_trans ha.moves.le_unused hle))

/-- So is an iterator that is made for it. -/
theorem get?_of_made (hs : Staged cast store) (hown' : ∀ address ∈ own', address.toNat < store.unused)
    (ha : Echoed cast own store middle' work answer answer' middle last')
    (hb : Echoed cast own' store middle more reply reply' middle' last) (hmade : work.made ≠ 0)
    (hne : more.made ≠ 0 → store.iterAddress ≠ middle.iterAddress) :
    last'.get? middle'.iterAddress = last.get? store.iterAddress := by
  have hle := (Store.unused_le_iterAddress (ha.room hmade).1).1
  rw [ha.fresh hmade]
  refine (hb.moves'.get?_eq hb.onArrays (fun hm => ?_) (hs.not_mem hle _)).symm
  rcases List.mem_append.mp hm with hm | hm
  · exact absurd (hown' _ hm) (Nat.not_lt.mpr hle)
  · obtain ⟨hmade', heq⟩ := Store.mem_fresh.mp hm
    exact hne hmade' heq

/-- Elsewhere the calls that both make for an array are counted. -/
theorem get?_of_not_mem (ha : Echoed cast own store middle' work answer answer' middle last')
    (hb : Echoed cast own' store middle more reply reply' middle' last) (hm : address ∉ own)
    (hm' : address ∉ own') (hfirst : address ∉ store.fresh work) (hlast : address ∉ middle.fresh more)
    (hfirst' : address ∉ store.fresh more) (hlast' : address ∉ middle'.fresh work) :
    last'.get? address = last.get? address := by
  rw [ha.moves'.others address (List.not_mem_append hm hlast'),
    hb.moves.others address (List.not_mem_append hm' hfirst'),
    hb.moves'.others address (List.not_mem_append hm' hlast),
    ha.moves.others address (List.not_mem_append hm hfirst), Option.map_map, Option.map_map]
  congr 1
  funext cell
  simp only [Function.comp, Cell.tally_tally, Nat.add_comm]

/-- **Two deeds that were done in either order** leave the same. -/
theorem matches_of_echoed (hs : Staged cast store)
    (hown : ∀ address ∈ own, address.toNat < store.unused ∧ (address, .array) ∉ cast)
    (hown' : ∀ address ∈ own', address.toNat < store.unused ∧ (address, .array) ∉ cast)
    (hdisj : own.Disjoint own')
    (ha : Echoed cast own store middle' work answer answer' middle last')
    (hb : Echoed cast own' store middle more reply reply' middle' last) :
    ∃ rename : Equiv.Perm UInt64, (rename = Equiv.refl _ ∨ work.made ≠ 0 ∧ more.made ≠ 0) ∧
      (∀ address, address.toNat < store.unused → rename address = address) ∧
      answer' = answer.rename rename ∧ reply = reply'.rename rename ∧
      last.Matches rename last' := by
  obtain ⟨rename, hboth, hself, hold, hrename, hrename', hne, hother⟩ := exists_exchange ha.made
    hb.made ha.moves.unused hb.moves.unused (fun h => (ha.room h).1) fun h => (hb.room h).2
  have hne' : more.made ≠ 0 → work.made ≠ 0 → store.iterAddress ≠ middle'.iterAddress :=
    fun hmade' hmade heq => hne hmade hmade'
      (heq.trans ((hrename hmade).symm.trans (hrename' hmade')))
  refine ⟨rename, hboth, hold, ha.answer rename hold hrename, ?_, ⟨fun address => ?_, ?_, ?_, ?_, ?_⟩⟩
  · rw [hb.answer rename hold hrename', Answer.rename_rename hself]
  · -- an object belongs to one of the deeds, was made by one of them, or is neither's
    by_cases hm : address ∈ own
    · rw [hold address (hown address hm).1]
      exact get?_of_mem_own (hown address hm) hdisj ha hb hm
    by_cases hm' : address ∈ own'
    · rw [hold address (hown' address hm').1]
      exact (get?_of_mem_own (hown' address hm') hdisj.symm hb ha hm').symm
    by_cases hfirst : address ∈ store.fresh work
    · obtain ⟨hmade, rfl⟩ := Store.mem_fresh.mp hfirst
      rw [hrename hmade]
      exact get?_of_made hs (fun address hm => (hown' address hm).1) ha hb hmade (hne hmade)
    by_cases hlast : address ∈ middle.fresh more
    · obtain ⟨hmade', rfl⟩ := Store.mem_fresh.mp hlast
      rw [← hrename' hmade', hself, hrename' hmade']
      exact (get?_of_made hs (fun address hm => (hown address hm).1) hb ha hmade' (hne' hmade')).symm
    -- what neither made in this order was made by neither in the other order
    have hfixed := hother address hfirst hlast
    rw [hfixed]
    refine get?_of_not_mem ha hb hm hm' hfirst hlast (fun hfirst' => ?_) fun hlast' => ?_
    · obtain ⟨hmade', rfl⟩ := Store.mem_fresh.mp hfirst'
      exact hlast (Store.mem_fresh.mpr ⟨hmade', hfixed.symm.trans (hrename' hmade')⟩)
    · obtain ⟨hmade, rfl⟩ := Store.mem_fresh.mp hlast'
      refine hfirst (Store.mem_fresh.mpr ⟨hmade, ?_⟩)
      rw [← hfixed, ← hrename hmade, hself]
  · rw [ha.moves'.unused, hb.moves.unused, hb.moves'.unused, ha.moves.unused,
      ← Function.iterate_add_apply, ← Function.iterate_add_apply, Nat.add_comm]
  · rw [ha.moves'.counters, hb.moves.counters, hb.moves'.counters, ha.moves.counters,
      Counters.bump_bump, Counters.bump_bump, Int.add_comm]
  · rw [ha.moves'.copies, hb.moves.copies, hb.moves'.copies, ha.moves.copies]
  · rw [ha.moves'.events, hb.moves.events, hb.moves'.events, ha.moves.events]

end

variable {middle middle' last : Store} {reply reply' : Answer}

/-- A deed that was done after another can be done before it. -/
theorem exists_run_of_run (hs : Staged cast store) (hfirst : first.Typed cast)
    (hsecond : second.Typed cast)
    (hdisj : (first.footprint store).Disjoint (second.footprint store))
    (hrun : first.run store = .ok (answer, middle)) (hrun' : second.run middle = .ok (reply, last)) :
    ∃ reply' middle', second.run store = .ok (reply', middle') := by
  have hl := later_of_run hs hfirst hrun
  have hmiddle := hs.later hl
  rcases echoed_of_run hmiddle hs hsecond (agree_of_run hs hfirst hsecond hdisj hrun).2 hrun' with
    ⟨_, reply', middle', hearly, -⟩ | ⟨hgrown, hfull, -⟩
  · exact ⟨reply', middle', hearly⟩
  · -- there was storage for it later, so there was before
    obtain ⟨work, -, -, hmoves, hroom⟩ := exists_work hmiddle hsecond hrun'
    refine absurd ((hroom fun hzero => ?_).of_le hl.unused) hfull
    rw [hmoves.unused, hzero] at hgrown
    exact Nat.lt_irrefl _ hgrown

/-- Two deeds that are done one after the other do the same the other way round. -/
theorem echoed_of_andThen (hs : Staged cast store) (hfirst : first.Typed cast)
    (hsecond : second.Typed cast)
    (hdisj : (first.footprint store).Disjoint (second.footprint store))
    (hrun : first.run store = .ok (answer, middle)) (hrun' : second.run middle = .ok (reply, last))
    (hearly : second.run store = .ok (reply', middle')) :
    ∃ work more answer' last', first.run middle' = .ok (answer', last') ∧
      (work.made ≠ 0 → first.Makes) ∧ (more.made ≠ 0 → second.Makes) ∧
      Echoed cast (first.footprint store) store middle' work answer answer' middle last' ∧
      Echoed cast (second.footprint store) store middle more reply' reply middle' last := by
  have hmiddle := hs.later (later_of_run hs hfirst hrun)
  have hmiddle' := hs.later (later_of_run hs hsecond hearly)
  rcases echoed_of_run hs hmiddle hsecond (agree_of_run hs hfirst hsecond hdisj hrun).1 hearly with
    ⟨more, _, _, hsame, hmakes', hb⟩ | ⟨-, -, hfull⟩
  swap
  · rw [hrun'] at hfull
    cases hfull
  rw [hrun'] at hsame
  cases hsame
  rcases echoed_of_run hs hmiddle' hfirst
      (agree_of_run hs hsecond hfirst (fun _ h h' => hdisj h' h) hearly).1 hrun with
    ⟨work, answer', last', hlate, hmakes, ha⟩ | ⟨hgrown, hfull, -⟩
  · exact ⟨work, more, answer', last', hlate, hmakes, hmakes', ha, hb⟩
  · -- there is storage for as many iterators the other way round
    obtain ⟨work, -, hone, hmoves, hroom⟩ := exists_work hs hfirst hrun
    have hmade : work.made ≠ 0 := fun hzero => by
      rw [hmoves.unused, hzero] at hgrown
      exact Nat.lt_irrefl _ hgrown
    by_cases hmade' : more.made = 0
    · refine absurd ((hroom hmade).of_le (Nat.le_of_eq ?_)) hfull
      rw [hb.moves.unused, hmade']
      rfl
    · refine absurd ((hb.room hmade').2.of_le (Nat.le_of_eq ?_)) hfull
      rw [hb.moves.unused, hmoves.unused, show work.made = more.made by have := hb.made; omega]

/-- **Two deeds about different objects** can be done in either order: they are answered alike, and
they leave the same.  Only if both make an iterator over an array are these at other addresses. -/
theorem exchange {answers : Answer × Answer} (hs : Staged cast store) (hfirst : first.Typed cast)
    (hsecond : second.Typed cast)
    (hdisj : (first.footprint store).Disjoint (second.footprint store))
    (hrun : first.andThen second store = .ok (answers, last)) :
    ∃ (rename : Equiv.Perm UInt64) (last' : Store),
      second.andThen first store =
        .ok ((answers.2.rename rename, answers.1.rename rename), last') ∧
      last.Matches rename last' ∧
      (∀ address, address.toNat < store.unused → rename address = address) ∧
      (rename = Equiv.refl _ ∨ first.Makes ∧ second.Makes) := by
  unfold andThen at hrun
  split at hrun
  · cases hrun
  · next answer middle hrun₁ =>
    obtain ⟨⟨reply, last⟩, hrun₂, heq⟩ := Except.exists_of_map_eq_ok hrun
    cases heq
    obtain ⟨reply', middle', hearly⟩ := exists_run_of_run hs hfirst hsecond hdisj hrun₁ hrun₂
    obtain ⟨work, more, answer', last', hlate, hmakes, hmakes', ha, hb⟩ :=
      echoed_of_andThen hs hfirst hsecond hdisj hrun₁ hrun₂ hearly
    obtain ⟨rename, hboth, hold, hanswer, hreply, hmatches⟩ := matches_of_echoed hs
      (fun _ => of_mem_footprint hs hfirst) (fun _ => of_mem_footprint hs hsecond) hdisj ha hb
    refine ⟨rename, last', ?_, hmatches, hold, hboth.imp_right fun h => ⟨hmakes h.1, hmakes' h.2⟩⟩
    rw [andThen, hearly]
    simp only [hlate, Except.map]
    rw [hanswer, hreply]

/-- **Two deeds about different objects**, each of which can be done, can be done one after the other,
unless there is no storage for a second iterator over an array. -/
theorem andThen_of_run (hs : Staged cast store) (hfirst : first.Typed cast)
    (hsecond : second.Typed cast)
    (hdisj : (first.footprint store).Disjoint (second.footprint store))
    (hrun : first.run store = .ok (answer, middle))
    (hearly : second.run store = .ok (reply', middle')) :
    (∃ answers last, first.andThen second store = .ok (answers, last)) ∨
      ¬middle.HasRoom ∧ first.andThen second store = .error .outOfMemory := by
  have hmiddle := hs.later (later_of_run hs hfirst hrun)
  unfold andThen
  rw [hrun]
  rcases echoed_of_run hs hmiddle hsecond (agree_of_run hs hfirst hsecond hdisj hrun).1 hearly with
    ⟨_, reply, last, hlate, -⟩ | ⟨-, hfull, hlate⟩
  · exact .inl ⟨(answer, reply), last, by simp only [hlate, Except.map]⟩
  · exact .inr ⟨hfull, by simp only [hlate, Except.map]⟩

end Deed

end PullIter
