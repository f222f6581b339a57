import PullIter.Proofs.Apart.Exchange
import PullIter.Proofs.Apart.Tally
import PullIter.Proofs.Shared.Chronicle
import PullIter.Proofs.Shared.Session

/-!
# What the host does with objects that are apart

Whatever the host does with a value or with a handle concerns nothing but what that reaches.  Where
two of them reach no common object, but for arrays, it does not matter which of them is used first.
Arrays may be shared, as every iterator over one has its own place in it.

## Main definitions

* `Deed.Commutes` — two deeds can be done in either order.
* `World.Delivered` — an array has counted all the calls of its iterators, which had its elements.

## Main results

* `World.Reached.isolated` — **what the host does with objects that are apart** can be done in either
  order, and each iterator over an array has its elements in order.
-/

namespace PullIter

open Linkage (runtime)

/-- Two deeds can be done in either order.  They are answered alike, and they leave the same: only
if both make an iterator over an array, the addresses of these are exchanged. -/
structure Deed.Commutes (first second : Deed) (store : Store) : Prop where
  exchange : ∀ {answers last}, first.andThen second store = .ok (answers, last) →
    ∃ (rename : Equiv.Perm UInt64) (last' : Store),
      second.andThen first store =
        .ok ((answers.2.rename rename, answers.1.rename rename), last') ∧
      last.Matches rename last' ∧
      (∀ address, address.toNat < store.unused → rename address = address) ∧
      (rename = Equiv.refl _ ∨ first.Makes ∧ second.Makes)
  /-- If each can be done, then one can be done after the other, if there is storage for both. -/
  andThen : ∀ {answer answer' after after'}, first.run store = .ok (answer, after) →
    second.run store = .ok (answer', after') →
    (∃ answers last, first.andThen second store = .ok (answers, last)) ∨
      ¬after.HasRoom ∧ first.andThen second store = .error .outOfMemory

namespace World

/-- An array has counted all the calls that were made for its elements, and each iterator over it
was answered with its elements in order. -/
structure Delivered (world : World) (array : UInt64) (elements : List Int64) (count : Nat) :
    Prop where
  made : ∀ call ∈ elementCalls world.calls array, call.Holds runtime
  counted : count = (elementCalls world.calls array).length
  delivers : ∀ iterator, Delivers elements (elementCallsBy world.calls array iterator)

/-- **What the host does with objects that are apart** can be done in either order.  The host may
have done anything before, and the objects may be nested and shared in any way: two values or
handles are apart if they reach no common object, but for arrays.  Each iterator over an array has
the elements of the array in order, whatever others have had, and the array counts all their
calls. -/
theorem Reached.isolated {world : World} (h : world.Reached) :
    (∀ {first second : Deed}, world.Permits first → world.Permits second →
      (first.footprint world.store).Disjoint (second.footprint world.store) →
      first.Commutes second world.store) ∧
    ∀ {array elements count}, (array, .array) ∈ world.objects →
      world.store.get? array = some (.array elements count) →
      world.Delivered array elements count := by
  obtain ⟨cast, hsound, hchronicle, htally⟩ :=
    h.exists_sound (Chronicle.recorded.and Tally.recorded) ⟨.nil .., .nil⟩
  refine ⟨fun hfirst hsecond hdisj => ⟨?_, ?_⟩, fun hm harray => ?_⟩
  · exact Deed.exchange hsound.staged (hsound.typed hfirst) (hsound.typed hsecond) hdisj
  · exact Deed.andThen_of_run hsound.staged (hsound.typed hfirst) (hsound.typed hsecond) hdisj
  · refine ⟨fun call hcall => ?_, htally.counted (hsound.subset hm) harray,
      htally.delivers (hsound.subset hm) harray⟩
    obtain ⟨_, _, _, _, _, _, hholds, _⟩ := hchronicle.made call (List.mem_of_mem_filter hcall)
    exact hholds

/-- The host keeps its objects. -/
theorem mem_objects_play {world : World} {deed : Deed} {entry : UInt64 × Role}
    (h : entry ∈ world.objects) : entry ∈ (world.play deed).objects := by
  unfold play
  split
  · exact List.mem_append_right _ h
  · exact h

/-- An array in lockstep with itself. -/
def sharingKind : Kind := .zip [.array, .array]

/-- What is asked for to make it, and to iterate over it and over arrays. -/
def sharingRequests : List Request :=
  [.constructor sharingKind [.ptr, .ptr], .iterator .array, .loop sharingKind]

/-- The unit that answers. -/
def sharingUnit : Compiled :=
  match ((Compiler.create .debug []).requestAll sharingRequests).finish with
  | .ok (.ok unit) => unit
  | _ => ⟨(Compiler.create .debug []).decls, (Compiler.create .debug []).registry⟩

theorem genuine_sharingUnit : sharingUnit.Genuine :=
  ⟨.debug, [], sharingRequests, rfl, fun _ hm => absurd hm List.not_mem_nil⟩

/-- A loop over the zip that is made of the first array. -/
def sharingLoop : Deed :=
  .forEach sharingUnit sharingKind 0x7f00000020 none (List.replicate (Exec.slotSize sharingKind) 0)

/-- The handle on the same array that is made next. -/
def sharingHandle : Handle :=
  ⟨0x7f00000050, .provided (.intrinsic .arrayNext), some (.provided (.intrinsic .arrayRelease)),
    .owned, Entry.yieldLayout .array,
    List.replicate (Arg.paddedSize (Entry.yieldLayout .array).size) 0⟩

/-- The handle is on another iterator than those that the zip makes. -/
theorem disjoint_sharing {store : Store}
    (h : store.get? 0x7f00000020 = some (.block ⟨16, 8⟩ [0x7f00000030, 0x7f00000040])) :
    ((Deed.drain sharingUnit .array sharingHandle).footprint store).Disjoint
      (sharingLoop.footprint store) := by
  have hzip : sharingLoop.footprint store = [0x7f00000020, 0x7f00000030, 0x7f00000040] := by
    rw [sharingLoop, Deed.footprint,
      show sharingKind.valueRole? = some (.zip [.elements, .elements]) from rfl]
    simp only [Store.reach, h, Store.reachFrom]
    rfl
  have hiterator : (Deed.drain sharingUnit .array sharingHandle).footprint store =
      [0x7f00000050] := by
    rw [Deed.footprint, show Kind.array.role? = some .elements from rfl]
    simp only [Store.reach]
    rfl
  rw [hzip, hiterator, List.singleton_disjoint]
  decide

/-- Three iterators over one array, two of them in a zip: a loop over the zip and a drain of the
other can be done in either order.  After both, the array has counted nine calls. -/
theorem Reached.isolated_sharing : ∃ (world last : World) (drain : Deed), world.Reached ∧
    world.Permits drain ∧ world.Permits sharingLoop ∧
    (drain.footprint world.store).Disjoint (sharingLoop.footprint world.store) ∧
    (drain.andThen sharingLoop world.store).isOk = true ∧
    drain.Commutes sharingLoop world.store ∧
    last.Reached ∧ last.store.get? 0x7f00000000 = some (.array [7, 8] 9) ∧
    last.Delivered 0x7f00000000 [7, 8] 9 := by
  have array := Relation.ReflTransGen.single (@Turn.array start [7, 8] _ _ rfl)
  have zipped := array.tail (@Turn.construct _ sharingUnit sharingKind _
    [.ptr 0x7f00000000, .ptr 0x7f00000000] _ _ genuine_sharingUnit rfl
    (by
      intro i source operand hs ho
      match i with
      | 0 => cases hs; cases ho; exact ⟨.array, rfl, .head _⟩
      | 1 => cases hs; cases ho; exact ⟨.array, rfl, .head _⟩) rfl)
  have held := zipped.tail (@Turn.deed _ (.iter sharingUnit .array 0x7f00000000) _ _
    ⟨genuine_sharingUnit, _, rfl, .tail _ (.head _)⟩ rfl)
  have looped := held.tail (@Turn.play _ sharingLoop
    ⟨genuine_sharingUnit, ⟨_, rfl, .tail _ (.head _)⟩, rfl⟩ (by decide +kernel))
  have last := looped.tail (@Turn.play _ (.drain sharingUnit .array sharingHandle)
    (mem_handles_play (.head _)) (by decide +kernel))
  refine ⟨_, _, .drain sharingUnit .array sharingHandle, held, .head _,
    ⟨genuine_sharingUnit, ⟨_, rfl, .tail _ (.head _)⟩, rfl⟩, ?_, by decide +kernel, ?_, last,
    by decide +kernel, ?_⟩
  · exact disjoint_sharing (by decide +kernel)
  · exact (Reached.isolated held).1 (.head _)
      ⟨genuine_sharingUnit, ⟨_, rfl, .tail _ (.head _)⟩, rfl⟩
      (disjoint_sharing (by decide +kernel))
  · exact (Reached.isolated last).2
      (mem_objects_play (mem_objects_play (.tail _ (.tail _ (.head _))))) (by decide +kernel)

end World

end PullIter
