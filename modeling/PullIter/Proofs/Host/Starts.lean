import PullIter.Proofs.Host.Atomicity
import PullIter.Proofs.Host.Resumption

/-!
# The starts of an enumerate

The start of an enumerate may be a truth value, a 32-bit or a 64-bit integer, or it may be left out.
The argument records differ, and so do the constructors that read them, but all of them store the
same count: two enumerates whose starts stand for the same count are in the same state, and nobody
can tell them apart.

## Main definitions

* `Handle.view` — what some steps of a handle show.

## Main results

* `Exec.construct_start` — a constructor stores the count that the start stands for.
* `Handle.Drives.view_eq` — what a handle shows does not depend on its buffer.
* `Finished.starts_interchange` — **starts that stand for the same count are interchangeable.**
-/

namespace PullIter

/-! ### Constructors -/

namespace Exec

/-- **A constructor stores the count** that the start stands for, whichever argument it is. -/
theorem construct_start (link : Linkage) (source : Kind) (start : Start) (address : UInt64)
    (store : Store) :
    construct link (.enumerate source) (.ptr :: start.args.map Arg.kind)
      (Arg.record (Layout.enumerateArgs targetPointerBytes (.ptr :: start.args.map Arg.kind))
        (.ptr address :: start.args)) store =
    construct link (.enumerate source) [.ptr, .i64]
      (Arg.record (Layout.enumerateArgs targetPointerBytes [.ptr, .i64])
        [.ptr address, .i64 start.count]) store := by
  have hsource := Tree.loadSource_record (.i64 start.count) address
  have hstart := Tree.loadStart_record (.i64 start.count) address
  -- the records differ, but what is loaded from them does not
  simp only [Start.args, List.map_cons, List.map_nil, Arg.kind] at hsource hstart
  rw [construct, construct, Tree.loadSource_record, Tree.loadStart_record, hsource, hstart]
  rfl

/-- The count is in its cell. -/
theorem peek_count_of_construct {link : Linkage} {source : Kind} {start : Start}
    {address state : UInt64} {store after : Store}
    (h : construct link (.enumerate source) (.ptr :: start.args.map Arg.kind)
      (Arg.record (Layout.enumerateArgs targetPointerBytes (.ptr :: start.args.map Arg.kind))
        (.ptr address :: start.args)) store = .ok (state, after)) :
    after.peek state Layout.countIndex = .ok start.count.toUInt64 := by
  obtain ⟨operand, count, iterator, mid, empty, counted, -, hcount, -, -, hstored, hlast⟩ :=
    exists_of_construct_enumerate h
  rw [Tree.loadStart_record] at hcount
  cases hcount
  obtain ⟨⟨block, words⟩, hblock, rfl⟩ := Except.exists_of_map_eq_ok hstored
  have hcell : (empty.set state (.block block
      (words.poke Layout.countIndex start.count.toUInt64))).get? state = some (.block block _) :=
    Store.get?_set_self (Store.blockAt_eq_ok hblock)
  rw [Store.poke_of_get? hcell] at hlast
  cases hlast
  rw [Store.peek_of_get? (Store.get?_set_self hcell),
    Words.peek_poke_of_ne (show Layout.countIndex ≠ Layout.sourceIndex by decide),
    Words.peek_poke_self]

end Exec

/-! ### Handles -/

namespace Handle

/-- What some steps of a handle show: their outcomes, and the store after them. -/
def view (unit : Compiled) (n : Nat) (handle : Handle) (store : Store) :
    Except Fault (List Outcome × Store) :=
  (handle.steps unit n store).map fun (outcomes, _, last) => (outcomes, last)

variable {unit : Compiled} {kind : Kind} {handle after : Handle} {outcome : Outcome}
  {store last : Store}

theorem view_succ_of_step (hs : handle.step unit store = .ok (outcome, after, last)) (n : Nat) :
    handle.view unit (n + 1) store =
      (after.view unit n last).map fun (outcomes, last) => (outcome :: outcomes, last) := by
  rw [view, view, steps, hs]
  simp only
  cases after.steps unit n last with
  | error fault => rfl
  | ok rest => rfl

theorem view_succ_of_fault {fault : Fault} (hs : handle.step unit store = .error fault) (n : Nat) :
    handle.view unit (n + 1) store = .error fault := by
  rw [view, steps, hs]
  rfl

/-- **What a handle shows** does not depend on the handle, however many steps it makes. -/
theorem Drives.view_eq (n : Nat) : ∀ {left right : Handle} {store : Store},
    left.Drives unit kind → right.Drives unit kind → left.iterator = right.iterator →
      Exec.CoversAhead unit.provided kind left.iterator store →
      left.view unit n store = right.view unit n store := by
  induction n with
  | zero => exact fun _ _ _ _ => rfl
  | succ n ih =>
    intro left right store hl hr hsame hcover
    -- each of them shows what the iterator shows
    have hshown := hl.shows_eq hcover.now
    have hshows : left.shows unit store = right.shows unit store := by
      rw [hshown, hr.shows_eq (hsame ▸ hcover.now), hsame]
    rw [Handle.shows, Handle.shows] at hshows
    rw [Handle.shows] at hshown
    cases hsl : left.step unit store with
    | error fault =>
      rw [hsl] at hshows
      cases hsr : right.step unit store with
      | error fault' => cases (hsr ▸ hshows); rw [view_succ_of_fault hsl, view_succ_of_fault hsr]
      | ok result => cases (hsr ▸ hshows)
    | ok result =>
      obtain ⟨outcome, left', last⟩ := result
      rw [hsl] at hshows hshown
      cases hsr : right.step unit store with
      | error fault' => cases (hsr ▸ hshows)
      | ok result' =>
        obtain ⟨outcome', right', last'⟩ := result'
        rw [hsr] at hshows
        cases hshows
        obtain ⟨hl', hli⟩ := hl.of_step hsl
        obtain ⟨hr', hri⟩ := hr.of_step hsr
        rw [view_succ_of_step hsl, view_succ_of_step hsr,
          ih hl' hr' (by rw [hli, hri, hsame]) (hli ▸ hcover.after (.single hshown.symm))]

end Handle

/-! ### Units -/

namespace Compiled.Finished

variable {unit : Compiled} {options : Options} {externals : List (String × Provider)}
  {requests : List Request} {source : Kind}

/-- Constructors with starts that stand for the same count **make the same value**. -/
theorem hostConstruct_start (h : unit.Finished options externals requests) (start : Start)
    (given : .constructor (.enumerate source) (.ptr :: start.args.map Arg.kind) ∈ requests)
    (wide : .constructor (.enumerate source) [.ptr, .i64] ∈ requests) (address : UInt64)
    (store : Store) :
    unit.hostConstruct (.enumerate source) (.ptr address :: start.args) store =
      unit.hostConstruct (.enumerate source) [.ptr address, .i64 start.count] store := by
  obtain ⟨release, hrelease, hgiven⟩ :=
    @hostConstruct_of_requested _ _ _ _ (.enumerate source) h (.ptr address :: start.args) given
  obtain ⟨release', hrelease', hwide⟩ :=
    @hostConstruct_of_requested _ _ _ _ (.enumerate source) h [.ptr address, .i64 start.count] wide
  cases hrelease.symm.trans hrelease'
  rw [hgiven, hwide]
  exact congrArg (Except.map _) (Exec.construct_start _ source start address store)

/-- A handle of an enumerate drives the enumerate itself, and making it changes nothing. -/
theorem hostIter_enumerate (h : unit.Finished options externals requests)
    (hygienic : unit.Hygienic) {value : UInt64} {handle : Handle} {store after : Store}
    (hm : unit.hostIter (.enumerate source) value store = .ok (.ok handle, after)) :
    handle.Drives unit (.enumerate source) ∧ handle.iterator = value ∧ after = store := by
  cases hc : unit.entryCode ⟨.getiter, .enumerate source⟩ with
  | error e => rw [hostIter, hc] at hm; cases hm
  | ok code =>
    obtain ⟨handle', hdrives, hiter⟩ := hostIter_eq h (callsLinked_of_hygienic h hygienic hc) hc
    rw [hiter] at hm
    cases hm
    exact ⟨(hdrives value).2, (hdrives value).1, rfl⟩

/-- **Starts that stand for the same count are interchangeable.**  A constructor with any start,
or without one, makes the same value of a source as the constructor with the 64-bit integer that
the start stands for: the count is in its cell.  Handles of these two values show the same in any
number of steps, whatever is in their buffers: the same outcomes, and the same store, with the count
and the source in it.  The handle that the host makes is such a handle.  For this no symbol may bear
the name of a lowered entry point, and a leaf with a value has to store all of it. -/
theorem starts_interchange (h : unit.Finished options externals requests) (source : Kind)
    (start : Start)
    (given : .constructor (.enumerate source) (.ptr :: start.args.map Arg.kind) ∈ requests)
    (wide : .constructor (.enumerate source) [.ptr, .i64] ∈ requests) (address : UInt64)
    (store : Store) :
    unit.hostConstruct (.enumerate source) (.ptr address :: start.args) store =
      unit.hostConstruct (.enumerate source) [.ptr address, .i64 start.count] store ∧
    ∀ {made made' : Constructed} {after after' : Store},
      unit.hostConstruct (.enumerate source) (.ptr address :: start.args) store =
        .ok (.ok made, after) →
      unit.hostConstruct (.enumerate source) [.ptr address, .i64 start.count] store =
        .ok (.ok made', after') →
      after.peek made.address Layout.countIndex = .ok start.count.toUInt64 ∧
      after'.peek made'.address Layout.countIndex = .ok start.count.toUInt64 ∧
      (unit.Hygienic →
        (∀ {handle : Handle} {fresh : Store},
          unit.hostIter (.enumerate source) made.address after = .ok (.ok handle, fresh) →
          handle.Drives unit (.enumerate source) ∧ handle.iterator = made.address ∧ fresh = after) ∧
        (Exec.CoversAhead unit.provided (.enumerate source) made.address after →
          ∀ {left right : Handle}, left.Drives unit (.enumerate source) →
            right.Drives unit (.enumerate source) → left.iterator = made.address →
            right.iterator = made'.address →
            ∀ n, left.view unit n after = right.view unit n after')) := by
  have hsame := h.hostConstruct_start start given wide address store
  refine ⟨hsame, fun {made made' after after'} hm hm' => ?_⟩
  have hcount : after.peek made.address Layout.countIndex = .ok start.count.toUInt64 := by
    obtain ⟨release, -, hrun⟩ :=
      @hostConstruct_of_requested _ _ _ _ (.enumerate source) h (.ptr address :: start.args) given
    rw [hrun] at hm
    obtain ⟨⟨state, last⟩, hc, heq⟩ := Except.exists_of_map_eq_ok hm
    cases heq
    exact Exec.peek_count_of_construct hc
  obtain ⟨rfl, rfl⟩ : made = made' ∧ after = after' := by
    cases hm.symm.trans (hsame.trans hm')
    exact ⟨rfl, rfl⟩
  exact ⟨hcount, hcount, fun hygienic => ⟨h.hostIter_enumerate hygienic,
    fun hcover _ _ hl hr hli hri n =>
      Handle.Drives.view_eq n hl hr (hli.trans hri.symm) (hli.symm ▸ hcover)⟩⟩

/-- What is asked for: enumerates of a range with 32-bit and with 64-bit starts. -/
def startRequests : List Request :=
  [.constructor (.enumerate .range) [.ptr, .i32], .constructor (.enumerate .range) [.ptr, .i64],
    .iterator (.enumerate .range)]

/-- A negative start is extended with its sign. -/
theorem starts_interchange_negative : ∃ (unit : Compiled) (range : UInt64) (store : Store),
    unit.Finished .debug [] startRequests ∧ unit.Hygienic ∧
    Store.empty.newRange 3 5 = .ok (range, store) ∧
    ∃ (made : Constructed) (after : Store) (handle : Handle),
      unit.hostConstruct (.enumerate .range) [.ptr range, .i32 (-2)] store = .ok (.ok made, after) ∧
      unit.hostIter (.enumerate .range) made.address after = .ok (.ok handle, after) ∧
      unit.hostConstruct (.enumerate .range) [.ptr range, .i64 (-2)] store = .ok (.ok made, after) ∧
      after.peek made.address Layout.countIndex = .ok (-2) ∧
      ∀ n buffer, handle.buffer.length ≤ buffer.length →
        handle.view unit n after = { handle with buffer := buffer }.view unit n after := by
  have hview : ∀ {unit : Compiled} {range : UInt64} {store after : Store} {made : Constructed}
      {handle : Handle}, unit.Finished .debug [] startRequests → unit.Hygienic →
      unit.hostConstruct (.enumerate .range) [.ptr range, .i32 (-2)] store = .ok (.ok made, after) →
      unit.hostIter (.enumerate .range) made.address after = .ok (.ok handle, after) →
      unit.hostConstruct (.enumerate .range) [.ptr range, .i64 (-2)] store = .ok (.ok made, after) ∧
      after.peek made.address Layout.countIndex = .ok (-2) ∧
      ∀ n buffer, handle.buffer.length ≤ buffer.length →
        handle.view unit n after = { handle with buffer := buffer }.view unit n after := by
    intro unit range store after made handle h hygienic hm hi
    obtain ⟨hsame, hall⟩ :=
      h.starts_interchange .range (.i32 (-2)) (by decide) (by decide) range store
    have hm' := hsame.symm.trans hm
    obtain ⟨hcount, -, hhandles⟩ := hall hm hm'
    obtain ⟨hmade, hviews⟩ := hhandles hygienic
    obtain ⟨hd, hiter, -⟩ := hmade hi
    have hruns := runsRuntime_of_finished h fun external hm => absurd hm List.not_mem_nil
    have hcover := @coversAhead_of_builtIn unit hruns (.enumerate .range)
      (fun leaf hm => List.mem_singleton.mp hm ▸ .inr (.inl rfl)) made.address after
    refine ⟨hm', hcount, fun n buffer hle => ?_⟩
    have hd' : Handle.Drives unit _ { handle with buffer := buffer } :=
      ⟨hd.next, hd.drop, hd.layout, Nat.le_trans hd.buffer hle⟩
    exact hviews hcover hd hd' hiter hiter n
  refine ⟨_, _, _, rfl, ?_, rfl, _, _, _, rfl, rfl, ?_⟩
  · unfold Hygienic
    decide +kernel
  · refine hview rfl ?_ rfl rfl
    unfold Hygienic
    decide +kernel

end Compiled.Finished

end PullIter
