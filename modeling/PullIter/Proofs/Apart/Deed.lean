import PullIter.Proofs.Apart.Life

/-!
# What the host does in another store

What the host does with a value or with a handle depends on what that reaches, and on the elements
of arrays.  In a store that agrees on these it does the same, but for the address of an iterator over
an array that it makes.

## Main definitions

* `Compiled.Loops` — the loops of a unit run the built-in routines.
* `Deed.footprint` — the objects that a deed is about.
* `Deed.Makes` — an iterator over an array is made for the deed.
* `Deed.Answer.rename` — an answer with other addresses.
* `Deed.Echoed` — a deed was done in another store.

## Main results

* `Deed.echoed_of_run` — **what the host does** it does in any store that agrees on what its value or
  its handle reaches, unless there is no storage.
-/

namespace PullIter

open Linkage (runtime)
open Store (Made)

/-! ### What the wrappers run -/

namespace Compiled

variable {unit : Compiled} {kind : Kind} {role : Role}

/-- Obtaining a handle is refused, or makes an iterator, whatever the store. -/
theorem hostIter_cases (h : unit.Genuine) (hk : kind.role? = some role) :
    (∃ e, ∀ value store, unit.hostIter kind value store = .ok (.error e, store)) ∨
    ∃ handle : Handle, ∀ value store, unit.hostIter kind value store =
      (Exec.getiter runtime kind value store).map fun made =>
        (.ok { handle with iterator := made.1 }, made.2) := by
  have hagree := agreesOn_runtime h.runsRuntime hk
  obtain ⟨options, externals, requests, hfinished, -⟩ := h
  cases hgetiter : unit.entryCode ⟨.getiter, kind⟩ with
  | error e => exact .inl ⟨e, fun _ _ => by simp only [hostIter, hgetiter]⟩
  | ok getiter =>
    have hrun := getiter_eq (callsLinked_of_role? hk) (hfinished.provides hgetiter)
    cases hnext : unit.entryCode ⟨.iternext, kind.iteratorKind⟩ with
    | error e => exact .inl ⟨e, fun _ _ => by simp only [hostIter, hgetiter, hnext]⟩
    | ok next =>
      cases hrelease : (if kind.ownership = .owned then unit.releaseCode kind.iteratorKind
          else .ok none) with
      | error e => exact .inl ⟨e, fun _ _ => by simp only [hostIter, hgetiter, hnext, hrelease]⟩
      | ok release =>
        refine .inr ⟨⟨0, next, release, kind.ownership, Entry.yieldLayout kind,
          List.replicate (Arg.paddedSize (Entry.yieldLayout kind).size) 0⟩, fun value store => ?_⟩
        simp only [hostIter, hgetiter, hnext, hrelease, hrun, Exec.getiter_congr kind hagree]

/-- The loops of a unit run the built-in routines. -/
def Loops (unit : Compiled) (kind : Kind) : Prop :=
  ∀ value trap slot store, unit.hostForEach kind value trap slot store =
    (Exec.forEach runtime kind (Recorder.sink (Entry.yieldLayout kind)) slot value
      (Recorder.start trap) store).map fun ended =>
        (.ok (ended.2.1.values, ended.2.1.ending ended.1), ended.2.2)

/-- A loop is refused, or runs, whatever the store. -/
theorem hostForEach_cases (h : unit.Genuine) (hk : kind.role? = some role) :
    (∃ e, ∀ value trap slot store,
      unit.hostForEach kind value trap slot store = .ok (.error e, store)) ∨
    unit.Loops kind := by
  have hagree := agreesOn_runtime h.runsRuntime hk
  obtain ⟨options, externals, requests, hfinished, -⟩ := h
  cases hcode : unit.entryCode ⟨.forEach, kind⟩ with
  | error e =>
    refine .inl ⟨e, fun value trap slot store => ?_⟩
    rw [hostForEach, hcode]
  | ok code =>
    refine .inr fun value trap slot store => ?_
    rw [hostForEach_eq hfinished (callsLinked_of_role? hk) hcode, Exec.forEach_congr hagree]

end Compiled

/-! ### Deeds -/

/-- The same handle on another iterator. -/
def Handle.rename (rename : UInt64 → UInt64) (handle : Handle) : Handle :=
  { handle with iterator := rename handle.iterator }

theorem Handle.rename_of_eq {rename : UInt64 → UInt64} {handle : Handle}
    (h : rename handle.iterator = handle.iterator) : handle.rename rename = handle := by
  unfold Handle.rename
  rw [h]

/-- The address of an iterator over an array that is made for the work. -/
def Store.fresh (store : Store) (work : Work) : List UInt64 :=
  if work.made = 0 then [] else [store.iterAddress]

namespace Deed

/-- The objects that the value or the handle reaches. -/
def footprint (deed : Deed) (store : Store) : List UInt64 :=
  match deed with
  | iter _ kind value | forEach _ kind value .. =>
    match kind.valueRole? with
    | some role => store.reach role value
    | none => []
  | step _ kind handle | drain _ kind handle | drop _ kind handle =>
    match kind.role? with
    | some role => store.reach role handle.iterator
    | none => []

/-- An iterator over an array is made for the deed. -/
def Makes : Deed → Prop
  | iter _ kind _ | forEach _ kind .. => kind = .array
  | step .. | drain .. | drop .. => False

/-- The same answer with other addresses. -/
def Answer.rename (rename : UInt64 → UInt64) : Answer → Answer
  | made (.ok handle) => made (.ok (handle.rename rename))
  | made (.error e) => made (.error e)
  | stepped outcome handle => stepped outcome (handle.rename rename)
  | drained values ending handle => drained values ending (handle.rename rename)
  | dropped => dropped
  | looped result => looped result

/-- A deed was done in two stores: the same work was done outside of some objects, these are the same
afterwards, and the answers differ at most in the address of an iterator over an array that was
made. -/
structure Echoed (cast : Cast) (own : List UInt64) (store other : Store) (work : Work)
    (answer answer' : Answer) (after after' : Store) : Prop where
  onArrays : work.OnArrays cast
  made : work.made ≤ 1
  moves : Moves (own ++ store.fresh work) work store after
  moves' : Moves (own ++ other.fresh work) work other after'
  same : ∀ address ∈ own, after'.get? address = after.get? address
  fresh : work.made ≠ 0 → after'.get? other.iterAddress = after.get? store.iterAddress
  answer : ∀ rename : UInt64 → UInt64,
    (∀ address, address.toNat < store.unused → rename address = address) →
    (work.made ≠ 0 → rename store.iterAddress = other.iterAddress) → answer' = answer.rename rename
  room : work.made ≠ 0 → store.HasRoom ∧ other.HasRoom

variable {cast : Cast} {own : List UInt64} {unit : Compiled} {kind : Kind} {role : Role}
  {store other after : Store} {answer : Answer}

/-- Nothing is reached through an array. -/
theorem footprint_iter_array (unit : Compiled) (value : UInt64) (store : Store) :
    (iter unit .array value).footprint store = [] := by
  rw [footprint, show Kind.array.valueRole? = some .array from rfl]
  simp only [Store.reach]

theorem footprint_forEach_array (unit : Compiled) (value : UInt64) (trap : Option (Nat × String))
    (slot : List UInt8) (store : Store) :
    (forEach unit .array value trap slot).footprint store = [] := by
  rw [footprint, show Kind.array.valueRole? = some .array from rfl]
  simp only [Store.reach]

/-- Work for which no iterator over an array is made. -/
theorem echoed_of_moves {work : Work} {after' : Store} (hw : work.OnArrays cast)
    (hmade : work.made = 0) (hmoves : Moves own work store after)
    (hmoves' : Moves own work other after')
    (hsame : ∀ address ∈ own, after'.get? address = after.get? address)
    (hanswer : ∀ rename : UInt64 → UInt64,
      (∀ address, address.toNat < store.unused → rename address = address) →
      answer = answer.rename rename) :
    Echoed cast own store other work answer answer after after' where
  onArrays := hw
  made := by omega
  moves := by rw [Store.fresh, if_pos hmade, List.append_nil]; exact hmoves
  moves' := by rw [Store.fresh, if_pos hmade, List.append_nil]; exact hmoves'
  same := hsame
  fresh h := absurd hmade h
  answer rename hr _ := hanswer rename hr
  room h := absurd hmade h

/-- What does nothing. -/
theorem echoed_refl (ha : Agree cast own store other)
    (hanswer : ∀ rename : UInt64 → UInt64,
      (∀ address, address.toNat < store.unused → rename address = address) →
      answer = answer.rename rename) :
    Echoed cast own store other 0 answer answer store other :=
  echoed_of_moves (.zero cast) rfl (.refl ..) (.refl ..) ha.same hanswer

/-- A deed was done in another store, or there is no storage for it. -/
def EchoedOrFull (cast : Cast) (deed : Deed) (store other : Store) (answer : Answer)
    (after : Store) : Prop :=
  (∃ work answer' after', deed.run other = .ok (answer', after') ∧
    (work.made ≠ 0 → deed.Makes) ∧
    Echoed cast (deed.footprint store) store other work answer answer' after after') ∨
  store.unused < after.unused ∧ ¬other.HasRoom ∧ deed.run other = .error .outOfMemory

/-! ### Handles -/

theorem echoed_step (h : unit.Genuine) (hs : Staged cast store) (ht : Staged cast other)
    (hk : kind.role? = some role) {handle next : Handle} (hd : handle.Drives unit kind)
    (hm : (handle.iterator, role) ∈ cast)
    (ha : Agree cast ((step unit kind handle).footprint store) store other) {outcome : Outcome}
    (hrun : handle.step unit store = .ok (outcome, next, after)) :
    EchoedOrFull cast (step unit kind handle) store other (.stepped outcome next) after := by
  have hreach : (step unit kind handle).footprint store = store.reach role handle.iterator := by
    rw [footprint, hk]
  rw [hreach] at ha
  have hmirrors :=
    @Exec.mirrors_of_agree cast (store.reach role handle.iterator) kind role _ hk hm store other
  obtain ⟨after', hrun', htwins, -⟩ := hmirrors.step hd
    (Exec.next_congr kind (Compiled.agreesOn_runtime h.runsRuntime hk))
    ⟨hs, ht, List.Subset.refl _, ha, .refl ..⟩ hrun
  obtain ⟨work, hw, hmade, -, hmoves, hmoves'⟩ := htwins.paired
  refine .inl ⟨work, .stepped outcome next, after', by rw [run, hrun']; rfl,
    fun h => absurd hmade h, ?_⟩
  rw [hreach]
  refine echoed_of_moves hw hmade hmoves hmoves' htwins.agree.same fun rename hrename => ?_
  have hiterator := (hd.of_step hrun).2
  rw [Answer.rename, Handle.rename_of_eq (hrename _ (by rw [hiterator]; exact hs.bound hm))]

theorem echoed_drain (h : unit.Genuine) (hs : Staged cast store) (ht : Staged cast other)
    (hk : kind.role? = some role) {handle next : Handle} (hd : handle.Drives unit kind)
    (hm : (handle.iterator, role) ∈ cast)
    (ha : Agree cast ((drain unit kind handle).footprint store) store other) {values : List Value}
    {ending : LoopExit} (hrun : handle.drain unit store = .ok ((values, ending), next, after)) :
    EchoedOrFull cast (drain unit kind handle) store other (.drained values ending next) after := by
  have hreach : (drain unit kind handle).footprint store = store.reach role handle.iterator := by
    rw [footprint, hk]
  rw [hreach] at ha
  have hmirrors :=
    @Exec.mirrors_of_agree cast (store.reach role handle.iterator) kind role _ hk hm store other
  obtain ⟨after', hrun', htwins⟩ := hmirrors.drainWithin
    (Exec.next_congr kind (Compiled.agreesOn_runtime h.runsRuntime hk)) (store.rounds + 1) hd rfl
    ⟨hs, ht, List.Subset.refl _, ha, .refl ..⟩
    (Nat.lt_succ_of_le (Store.left_le_rounds role handle.iterator)) hrun
  obtain ⟨work, hw, hmade, -, hmoves, hmoves'⟩ := htwins.paired
  refine .inl ⟨work, .drained values ending next, after', ?_, fun h => absurd hmade h, ?_⟩
  · rw [run, Handle.drain, hrun']
    rfl
  rw [hreach]
  refine echoed_of_moves hw hmade hmoves hmoves' htwins.agree.same fun rename hrename => ?_
  have hiterator := (hd.of_drainWithin _ hrun).2
  rw [Answer.rename, Handle.rename_of_eq (hrename _ (by rw [hiterator]; exact hs.bound hm))]

theorem echoed_drop (h : unit.Genuine) (hk : kind.role? = some role) {handle : Handle}
    (hd : handle.Drives unit kind)
    (ha : Agree cast ((drop unit kind handle).footprint store) store other)
    (hrun : handle.drop unit store = .ok after) :
    EchoedOrFull cast (drop unit kind handle) store other .dropped after := by
  have hdrop : ∀ store, handle.drop unit store =
      Exec.releaseMade runtime kind handle.iterator store := fun store => by
    rw [hd.drop, Exec.releaseMade_congr kind (Compiled.agreesOn_runtime h.runsRuntime hk)]
  have hsame : ∀ rename : UInt64 → UInt64, Answer.dropped = Answer.dropped.rename rename :=
    fun _ => rfl
  rw [hdrop] at hrun
  -- only iterators over arrays are ended; dropping any other handle does nothing
  by_cases hne : kind = .array
  · subst hne
    cases hk
    have hreach : (drop unit .array handle).footprint store = [handle.iterator] := by
      rw [footprint, show Kind.array.role? = some .elements from rfl]
      simp only [Store.reach]
    rw [Exec.releaseMade_array] at hrun
    obtain ⟨released, hrelease, rfl⟩ := Except.exists_of_map_eq_ok hrun
    by_cases hzero : handle.iterator = 0
    · rw [hzero, Store.arrayRelease_zero] at hrelease
      cases hrelease
      refine .inl ⟨0, .dropped, other.called (.release (.intrinsic .arrayRelease) handle.iterator),
        ?_, fun h => absurd rfl h, echoed_of_moves (.zero cast) rfl ((Moves.refl ..).called _)
          ((Moves.refl ..).called _) ha.same fun rename _ => hsame rename⟩
      rw [run, hdrop, Exec.releaseMade_array, hzero, Store.arrayRelease_zero]
      rfl
    · -- a live iterator is live in the other store too, since it is what the handle reaches
      obtain ⟨cell, hcell⟩ : ∃ cell, store.get? handle.iterator = some cell := by
        rw [Store.arrayRelease, if_neg hzero, Store.reclaim] at hrelease
        cases hcell : store.get? handle.iterator with
        | none => rw [hcell] at hrelease; cases hrelease
        | some cell => exact ⟨cell, rfl⟩
      have hcell' : other.get? handle.iterator = some cell := by
        rw [ha.same _ (by rw [hreach]; exact List.mem_singleton_self _), hcell]
      rw [Store.arrayRelease_of_get? hcell hzero] at hrelease
      cases hrelease
      refine .inl ⟨.finish, .dropped, _, by
        rw [run, hdrop, Exec.releaseMade_array, Store.arrayRelease_of_get? hcell' hzero]; rfl,
        fun h => absurd rfl h, ?_⟩
      rw [hreach]
      refine echoed_of_moves (fun _ hcounted => absurd rfl hcounted) rfl
        ((Moves.finish store _).called _) ((Moves.finish other _).called _) (fun address hm => ?_)
        fun rename _ => hsame rename
      rw [List.mem_singleton.mp hm]
      exact (Store.get?_erase_self other _).trans (Store.get?_erase_self store _).symm
  · rw [Exec.releaseMade_of_ne hk hne] at hrun
    cases hrun
    refine .inl ⟨0, .dropped, other, ?_, fun h => absurd rfl h,
      echoed_refl ha fun rename _ => hsame rename⟩
    rw [run, hdrop, Exec.releaseMade_of_ne hk hne]
    rfl

/-! ### Values -/

/-- A value that is no array reaches what its iterator reaches. -/
theorem valueRole?_of_ne (hk : kind.role? = some role) (hne : kind ≠ .array) :
    kind.valueRole? = some role := by
  rw [Kind.valueRole?, if_neg hne, hk]

theorem lt_unused_of_made {work : Work} (h : Moves own work store after) (hmade : work.made = 1) :
    store.unused < after.unused := by
  rw [h.unused, hmade]
  exact Store.lt_iterEnd _

theorem echoed_iter (h : unit.Genuine) (hs : Staged cast store) (ht : Staged cast other)
    (hk : kind.role? = some role) {value : UInt64} (ho : cast.Offers kind value)
    (ha : Agree cast ((iter unit kind value).footprint store) store other) {made : Except Error Handle}
    (hrun : unit.hostIter kind value store = .ok (made, after)) :
    EchoedOrFull cast (iter unit kind value) store other (.made made) after := by
  rcases Compiled.hostIter_cases h hk with ⟨e, hrefused⟩ | ⟨handle, hmade⟩
  · rw [hrefused] at hrun
    cases hrun
    exact .inl ⟨0, .made (.error e), other, by rw [run, hrefused]; rfl,
      fun h => absurd rfl h, echoed_refl ha fun _ _ => rfl⟩
  rw [hmade] at hrun
  -- only an array needs storage; every other value is its own iterator
  by_cases hne : kind = .array
  · subst hne
    cases hk
    rw [Exec.getiter_array] at hrun
    by_cases hroom : store.HasRoom
    · obtain ⟨made, hgetiter, hmoves, mid, hmid, rfl⟩ := Store.arrayGetiter_of_room hroom value
      rw [hgetiter] at hrun
      cases hrun
      by_cases hroom' : other.HasRoom
      · obtain ⟨made', hgetiter', hmoves', mid', hmid', rfl⟩ :=
          Store.arrayGetiter_of_room hroom' value
        refine .inl ⟨.make, _, _, by
          rw [run, hmade, Exec.getiter_array, hgetiter']; rfl, fun _ => rfl, ?_⟩
        rw [footprint_iter_array]
        refine ⟨fun _ hcounted => absurd rfl hcounted, Nat.le_refl _, hmoves.called _,
          hmoves'.called _, fun _ hm => absurd hm List.not_mem_nil, fun _ => ?_,
          fun rename _ hrename => ?_, fun _ => ⟨hroom, hroom'⟩⟩
        · exact (hmid'.found ht.wellFormed).trans (hmid.found hs.wellFormed).symm
        · rw [Answer.rename, Handle.rename]
          simp only [hrename nofun]
      · -- the other store is full
        refine .inr ⟨lt_unused_of_made (hmoves.called _) rfl, hroom', ?_⟩
        rw [run, hmade, Exec.getiter_array, Store.arrayGetiter_of_full hroom']
        rfl
    · rw [Store.arrayGetiter_of_full hroom] at hrun
      cases hrun
  · rw [Exec.getiter_of_ne hk hne] at hrun
    cases hrun
    refine .inl ⟨0, .made (.ok { handle with iterator := value }), other, by
      rw [run, hmade, Exec.getiter_of_ne hk hne]; rfl, fun h => absurd rfl h,
      echoed_refl ha fun rename hrename => ?_⟩
    rw [Answer.rename, Handle.rename_of_eq (hrename _ (hs.bound (ho.mem hne hk)))]

end Deed

/-! ### Loops -/

namespace Exec

variable {cast : Cast} {kind : Kind} {role : Role} {store other after : Store} {σ : Type}
  {sink : Sink σ} {slot : List UInt8} {value : UInt64} {seen ended : σ} {status : Status}

/-- A loop over a value that is no array is rounds of its iterator. -/
theorem forEach_of_ne (hk : kind.role? = some role) (hne : kind ≠ .array) :
    forEach runtime kind sink slot value seen store =
      rounds runtime kind sink value (store.rounds + 1) slot seen store := by
  rw [forEach, getiter_of_ne hk hne]
  simp only
  cases rounds runtime kind sink value (store.rounds + 1) slot seen store with
  | error fault => rfl
  | ok last =>
    obtain ⟨status, seen, last⟩ := last
    simp only [releaseMade_of_ne hk hne]
    rfl

/-- An address that is handed out is not null. -/
theorem iterAddress_ne_zero {made : Store} {cell : Cell} (h : store.WellFormed)
    (hmade : Made store store.iterAddress cell made) : store.iterAddress ≠ 0 := by
  intro hzero
  have hunused := hmade.unused
  have hfirst := h.first
  rw [hzero] at hunused
  exact absurd (Nat.le_trans hfirst hunused) (by decide)

/-- Iterators that were made over an array in two stores are at its first element. -/
theorem abreast_of_made (hs : Staged cast store) (ht : Staged cast other)
    (hm : (value, .array) ∈ cast) (ha : Agree cast [] store other) {mid mid' : Store}
    (hmid : Made store store.iterAddress (.block ⟨16, 8⟩ [value, 0]) mid)
    (hmid' : Made other other.iterAddress (.block ⟨16, 8⟩ [value, 0]) mid')
    (hgrows : Grows cast store ((store.iterAddress, .elements) :: cast) (mid.count .arrayIter 1))
    (hgrows' : Grows cast other ((other.iterAddress, .elements) :: cast) (mid'.count .arrayIter 1))
    (call call' : Call) :
    Abreast cast ((store.iterAddress, .elements) :: cast) ((other.iterAddress, .elements) :: cast)
      value store.iterAddress other.iterAddress
      ((mid.count .arrayIter 1).called call) ((mid'.count .arrayIter 1).called call')
      ((mid.count .arrayIter 1).called call) ((mid'.count .arrayIter 1).called call') where
  staged := hgrows.staged.called call
  staged' := hgrows'.staged.called call'
  record := ⟨_, _, hmid.found hs.wellFormed, hmid'.found ht.wellFormed, rfl⟩
  elements := by
    -- neither is at the address of the array
    have hne : ∀ {store mid : Store} {cell : Cell}, Staged cast store →
        Made store store.iterAddress cell mid → value ≠ store.iterAddress := by
      intro store mid cell hstaged hmade heq
      exact absurd (hstaged.bound hm) (Nat.not_lt.mpr (heq ▸ hmade.unused))
    intro elements calls helements
    obtain ⟨calls', hcalls⟩ := ha.arrays hm ((hmid.other (hne hs hmid)).symm.trans helements)
    exact ⟨calls', (hmid'.other (hne ht hmid')).trans hcalls⟩
  paired := .refl ..

/-- **A loop over an array** makes an iterator, runs, and ends the iterator, wherever that is. -/
theorem forEach_array (hs : Staged cast store) (ht : Staged cast other)
    (hm : (value, .array) ∈ cast) (ha : Agree cast [] store other) (hroom : store.HasRoom)
    (hroom' : other.HasRoom)
    (hrun : forEach runtime .array sink slot value seen store = .ok (status, ended, after)) :
    ∃ work after', forEach runtime .array sink slot value seen other = .ok (status, ended, after') ∧
      work.OnArrays cast ∧ work.made = 1 ∧ Moves [store.iterAddress] work store after ∧
      Moves [other.iterAddress] work other after' ∧ after.get? store.iterAddress = none ∧
      after'.get? other.iterAddress = none := by
  obtain ⟨made, hgetiter, hmoves, mid, hmid, rfl⟩ := Store.arrayGetiter_of_room hroom value
  obtain ⟨made', hgetiter', hmoves', mid', hmid', rfl⟩ := Store.arrayGetiter_of_room hroom' value
  have hgrows := Store.grows_arrayGetiter hs hm hgetiter
  have hgrows' := Store.grows_arrayGetiter ht hm hgetiter'
  rw [forEach, getiter_array, hgetiter] at hrun
  rw [forEach, getiter_array, hgetiter']
  simp only [Except.map] at hrun ⊢
  split at hrun
  · cases hrun
  · next answer recorded last hrounds =>
    -- the two new iterators stand abreast, so the rounds over one are mirrored by those over the
    -- other
    have habreast := abreast_of_made hs ht hm ha hmid hmid' hgrows hgrows'
      (.getiter (.intrinsic .arrayGetiter) value store.iterAddress)
      (.getiter (.intrinsic .arrayGetiter) value other.iterAddress)
    obtain ⟨last', hrounds', hlast⟩ := (mirrors_of_fresh hm (List.mem_cons_self ..)
      (List.mem_cons_self ..) _ _).rounds sink _ habreast
      (Nat.lt_succ_of_le (Store.left_le_rounds .elements other.iterAddress)) hrounds
    obtain ⟨block, words, hcell, hcell', -⟩ := hlast.record
    obtain ⟨work, hw, hmade, hlive, hwork, hwork'⟩ := hlast.paired
    rw [releaseMade_array, Store.arrayRelease_of_get? hcell
      (iterAddress_ne_zero hs.wellFormed hmid)] at hrun
    cases hrun
    refine ⟨.make + work + .finish,
      ((last'.erase other.iterAddress).count .arrayIter (-1)).called
        (.release (.intrinsic .arrayRelease) other.iterAddress), ?_, ?_, ?_, ?_, ?_, ?_, ?_⟩
    · rw [hrounds']
      simp only [releaseMade_array, Store.arrayRelease_of_get? hcell'
        (iterAddress_ne_zero ht.wellFormed hmid')]
      rfl
    · exact (Work.OnArrays.add (fun _ h => absurd rfl h) hw).add fun _ h => absurd rfl h
    · rw [Work.made_add, Work.made_add, hmade]
      rfl
    · exact (((hmoves.called _).trans hwork).trans (.finish last _)).called _
    · exact (((hmoves'.called _).trans hwork').trans (.finish last' _)).called _
    · exact Store.get?_erase_self last _
    · exact Store.get?_erase_self last' _

end Exec

namespace Deed

variable {cast : Cast} {unit : Compiled} {kind : Kind} {role : Role} {store other after : Store}
  {answer : Answer}

variable {value : UInt64} {trap : Option (Nat × String)} {slot : List UInt8} {status : Status}
  {recorder : Recorder}

/-- A loop over an array makes an iterator, if there is storage for it. -/
theorem echoed_forEach_array (hloop : unit.Loops .array) (hs : Staged cast store)
    (ht : Staged cast other) (hm : (value, .array) ∈ cast)
    (ha : Agree cast ((forEach unit .array value trap slot).footprint store) store other)
    (hrun : Exec.forEach runtime .array (Recorder.sink (Entry.yieldLayout .array)) slot value
      (Recorder.start trap) store = .ok (status, recorder, after)) :
    EchoedOrFull cast (forEach unit .array value trap slot) store other
      (.looped (.ok (recorder.values, recorder.ending status))) after := by
  have hroom : store.HasRoom := by
    refine Classical.byContradiction fun hfull => ?_
    rw [Exec.forEach, Exec.getiter_array, Store.arrayGetiter_of_full hfull] at hrun
    cases hrun
  have hfresh : ∀ {work : Work}, work.made = 1 → ∀ store : Store,
      [] ++ store.fresh work = [store.iterAddress] := fun hmade store => by
    rw [Store.fresh, if_neg (by omega)]
    rfl
  by_cases hroom' : other.HasRoom
  · rw [footprint_forEach_array] at ha
    obtain ⟨work, after', hrun', hw, hmade, hmoves, hmoves', hnone, hnone'⟩ :=
      Exec.forEach_array hs ht hm ha hroom hroom' hrun
    refine .inl ⟨work, .looped (.ok (recorder.values, recorder.ending status)), after', ?_,
      fun _ => rfl, ?_⟩
    · rw [run, hloop, hrun']
      rfl
    · rw [footprint_forEach_array]
      refine ⟨hw, Nat.le_of_eq hmade, ?_, ?_, fun _ h => absurd h List.not_mem_nil,
        fun _ => hnone'.trans hnone.symm, fun _ _ _ => rfl, fun _ => ⟨hroom, hroom'⟩⟩
      · rw [hfresh hmade]; exact hmoves
      · rw [hfresh hmade]; exact hmoves'
  · -- the other store is full: the loop itself tells that storage was needed
    obtain ⟨work, after', -, -, hmade, hmoves, -⟩ :=
      Exec.forEach_array hs hs hm (.refl cast [] store) hroom hroom hrun
    refine .inr ⟨lt_unused_of_made hmoves hmade, hroom', ?_⟩
    rw [run, hloop, Exec.forEach, Exec.getiter_array, Store.arrayGetiter_of_full hroom']
    rfl

/-- A loop over any other value asks that. -/
theorem echoed_forEach_of_ne (hloop : unit.Loops kind) (hs : Staged cast store)
    (ht : Staged cast other) (hk : kind.role? = some role) (hne : kind ≠ .array)
    (hm : (value, role) ∈ cast)
    (ha : Agree cast ((forEach unit kind value trap slot).footprint store) store other)
    (hrun : Exec.forEach runtime kind (Recorder.sink (Entry.yieldLayout kind)) slot value
      (Recorder.start trap) store = .ok (status, recorder, after)) :
    EchoedOrFull cast (forEach unit kind value trap slot) store other
      (.looped (.ok (recorder.values, recorder.ending status))) after := by
  have hreach : (forEach unit kind value trap slot).footprint store = store.reach role value := by
    rw [footprint, valueRole?_of_ne hk hne]
  rw [hreach] at ha
  rw [Exec.forEach_of_ne hk hne] at hrun
  have hmirrors :=
    @Exec.mirrors_of_agree cast (store.reach role value) kind role value hk hm store other
  obtain ⟨after', hrun', htwins⟩ := hmirrors.rounds _ _ ⟨hs, ht, List.Subset.refl _, ha, .refl ..⟩
    (Nat.lt_succ_of_le (Store.left_le_rounds role value)) hrun
  obtain ⟨work, hw, hmade, -, hmoves, hmoves'⟩ := htwins.paired
  refine .inl ⟨work, .looped (.ok (recorder.values, recorder.ending status)), after', ?_,
    fun h => absurd hmade h, ?_⟩
  · rw [run, hloop, Exec.forEach_of_ne hk hne, hrun']
    rfl
  · rw [hreach]
    exact echoed_of_moves hw hmade hmoves hmoves' htwins.agree.same fun _ _ => rfl

theorem echoed_forEach (h : unit.Genuine) (hs : Staged cast store) (ht : Staged cast other)
    (hk : kind.role? = some role) (ho : cast.Offers kind value)
    (ha : Agree cast ((forEach unit kind value trap slot).footprint store) store other)
    {result : Except Error (List Value × LoopEnd)}
    (hrun : unit.hostForEach kind value trap slot store = .ok (result, after)) :
    EchoedOrFull cast (forEach unit kind value trap slot) store other (.looped result) after := by
  rcases Compiled.hostForEach_cases h hk with ⟨e, hrefused⟩ | hloop
  · rw [hrefused] at hrun
    cases hrun
    exact .inl ⟨0, .looped (.error e), other, by rw [run, hrefused]; rfl,
      fun h => absurd rfl h, echoed_refl ha fun _ _ => rfl⟩
  rw [hloop] at hrun
  obtain ⟨⟨status, recorder, last⟩, hrounds, heq⟩ := Except.exists_of_map_eq_ok hrun
  cases heq
  by_cases hne : kind = .array
  · subst hne
    exact echoed_forEach_array hloop hs ht ho.mem_array ha hrounds
  · exact echoed_forEach_of_ne hloop hs ht hk hne (ho.mem hne hk) ha hrounds

/-- **What the host does** it does in any store that agrees on what its value or its handle reaches,
unless there is no storage for an iterator. -/
theorem echoed_of_run {deed : Deed} (hs : Staged cast store) (ht : Staged cast other)
    (htyped : deed.Typed cast) (ha : Agree cast (deed.footprint store) store other)
    (hrun : deed.run store = .ok (answer, after)) :
    EchoedOrFull cast deed store other answer after := by
  obtain ⟨hgenuine, role, hk, htyped⟩ := htyped
  cases deed with
  | iter unit kind value =>
    obtain ⟨⟨made, last⟩, hi, heq⟩ := Except.exists_of_map_eq_ok hrun
    cases heq
    exact echoed_iter hgenuine hs ht hk htyped ha hi
  | step unit kind handle =>
    obtain ⟨⟨outcome, next, last⟩, hi, heq⟩ := Except.exists_of_map_eq_ok hrun
    cases heq
    exact echoed_step hgenuine hs ht hk htyped.1 htyped.2 ha hi
  | drain unit kind handle =>
    obtain ⟨⟨⟨values, ending⟩, next, last⟩, hi, heq⟩ := Except.exists_of_map_eq_ok hrun
    cases heq
    exact echoed_drain hgenuine hs ht hk htyped.1 htyped.2 ha hi
  | drop unit kind handle =>
    obtain ⟨last, hi, heq⟩ := Except.exists_of_map_eq_ok hrun
    cases heq
    exact echoed_drop hgenuine hk htyped.1 ha hi
  | forEach unit kind value trap slot =>
    obtain ⟨⟨result, last⟩, hi, heq⟩ := Except.exists_of_map_eq_ok hrun
    cases heq
    exact echoed_forEach hgenuine hs ht hk htyped.1 ha hi

end Deed

end PullIter
