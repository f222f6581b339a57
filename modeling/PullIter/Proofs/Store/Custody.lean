import Mathlib.Data.List.Nodup
import PullIter.Proofs.Store.Effects

/-!
# Which calls make and end objects

A call that is noted tells its routine and the object that it was called for.  So the calls that were
noted between two stores tell which objects may have been ended in between, and which of the
iterators that were made are still there.  They are all different, for an address is never used
twice.

## Main definitions

* `Call.ended?` — the object that a call ends.
* `Call.made?` — the iterator that a call makes.
* `Store.Custody` — what some calls made and ended.

## Main results

* `Custody.trans` — one run after another.
* `Touches.custody`, `custody_getiter` — a call of a routine.
-/

namespace PullIter

/-- Whether the iterators that the routine makes are scripts, if it makes any. -/
def Provider.makes? : Provider → Option Bool
  | intrinsic .arrayGetiter => some false
  | scriptGetiter => some true
  | intrinsic .alloc | intrinsic .free | intrinsic .arrayNext | intrinsic .arrayRelease
  | intrinsic .rangeNext | intrinsic .rangeRelease | intrinsic .generatorResume | scriptNext
  | scriptRelease | foreign => none

/-- The routine ends iterators that are scripts, or that are none: it belongs to a routine that makes
such iterators. -/
def Provider.undoes : Provider → Bool → Bool
  | intrinsic .arrayRelease, script => !script
  | scriptRelease, script => script
  | intrinsic .alloc, _ | intrinsic .free, _ | intrinsic .arrayGetiter, _ | intrinsic .arrayNext, _
  | intrinsic .rangeNext, _ | intrinsic .rangeRelease, _ | intrinsic .generatorResume, _
  | scriptNext, _ | scriptGetiter, _ | foreign, _ => false

namespace Call

/-- The object that the call ends, if it ends one. -/
def ended? : Call → Option UInt64
  | getiter provider address _ | next provider address _ =>
    if provider.ends then some address else none
  | release _ address | free _ address .. => some address
  | alloc .. => none

/-- The iterator that the call makes, and whether it is a script. -/
def made? : Call → Option (UInt64 × Bool)
  | getiter provider _ iterator => provider.makes?.map fun script => (iterator, script)
  | next .. | release .. | alloc .. | free .. => none

end Call

namespace Store

/-- **What some calls made and ended.**  Objects that none of them ends are kept.  The iterators that
they make are new, all different, and there unless one of the calls ends them. -/
structure Custody (calls : List Call) (before after : Store) : Prop where
  unused : before.unused ≤ after.unused
  kept : ∀ {address cell}, before.get? address = some cell →
    (∀ call ∈ calls, call.ended? ≠ some address) →
      ∃ cell', after.get? address = some cell' ∧ cell'.isScript = cell.isScript
  fresh : ∀ {call address script}, call ∈ calls → call.made? = some (address, script) →
    before.unused ≤ address.toNat ∧ address.toNat < after.unused
  made : ∀ {call address script}, call ∈ calls → call.made? = some (address, script) →
    (∀ call ∈ calls, call.ended? ≠ some address) →
      ∃ cell, after.get? address = some cell ∧ cell.isScript = script
  nodup : ((calls.filterMap Call.made?).map Prod.fst).Nodup

variable {before mid after : Store} {calls calls' : List Call}

namespace Custody

/-- Whoever ends nothing needs no call. -/
theorem of_keeps (h : Keeps before after) (hu : before.unused ≤ after.unused) :
    Custody [] before after where
  unused := hu
  kept hc _ := h _ _ hc
  fresh hm := absurd hm List.not_mem_nil
  made hm := absurd hm List.not_mem_nil
  nodup := .nil

theorem refl (store : Store) : Custody [] store store := of_keeps (.refl store) (Nat.le_refl _)

/-- An iterator that was made has the address of none that was there before. -/
theorem mem_made {iterator : UInt64} (h : Custody calls before after)
    (hm : iterator ∈ (calls.filterMap Call.made?).map Prod.fst) :
    before.unused ≤ iterator.toNat ∧ iterator.toNat < after.unused := by
  obtain ⟨⟨address, script⟩, hmade, rfl⟩ := List.mem_map.mp hm
  obtain ⟨call, hcall, heq⟩ := List.mem_filterMap.mp hmade
  exact h.fresh hcall heq

/-- **One run after another.** -/
theorem trans (h : Custody calls before mid) (h' : Custody calls' mid after) :
    Custody (calls ++ calls') before after where
  unused := Nat.le_trans h.unused h'.unused
  kept := by
    intro address cell hc hend
    rw [List.forall_mem_append] at hend
    obtain ⟨cell', hc', hsame⟩ := h.kept hc hend.1
    obtain ⟨cell'', hc'', hsame'⟩ := h'.kept hc' hend.2
    exact ⟨cell'', hc'', hsame'.trans hsame⟩
  fresh := by
    intro call address script hm hmade
    rcases List.mem_append.mp hm with hm | hm
    · obtain ⟨hle, hlt⟩ := h.fresh hm hmade
      exact ⟨hle, Nat.lt_of_lt_of_le hlt h'.unused⟩
    · obtain ⟨hle, hlt⟩ := h'.fresh hm hmade
      exact ⟨Nat.le_trans h.unused hle, hlt⟩
  made := by
    intro call address script hm hmade hend
    rw [List.forall_mem_append] at hend
    rcases List.mem_append.mp hm with hm | hm
    · -- what the first run made is kept by the second
      obtain ⟨cell, hc, hscript⟩ := h.made hm hmade hend.1
      obtain ⟨cell', hc', hsame⟩ := h'.kept hc hend.2
      exact ⟨cell', hc', hsame.trans hscript⟩
    · exact h'.made hm hmade hend.2
  nodup := by
    rw [List.filterMap_append, List.map_append, List.nodup_append]
    refine ⟨h.nodup, h'.nodup, fun first hfirst second hsecond heq => ?_⟩
    have hlt := (h.mem_made hfirst).2
    have hle := (h'.mem_made hsecond).1
    rw [heq] at hlt
    omega

/-- Noting a call that makes nothing. -/
theorem called {call : Call} (hu : before.unused ≤ after.unused) (hmade : call.made? = none)
    (hkept : ∀ {address cell}, before.get? address = some cell → call.ended? ≠ some address →
      ∃ cell', after.get? address = some cell' ∧ cell'.isScript = cell.isScript) :
    Custody [call] before (after.called call) where
  unused := hu
  kept hc hend := hkept hc (hend call (List.mem_singleton_self _))
  fresh hm heq := by
    rw [List.mem_singleton.mp hm, hmade] at heq
    cases heq
  made hm heq := by
    rw [List.mem_singleton.mp hm, hmade] at heq
    cases heq
  nodup := by
    rw [List.filterMap_cons_none hmade]
    exact .nil

end Custody

/-- A routine ends at most the object that it is called for. -/
theorem Touches.kept {provider : Provider} {address other : UInt64} {cell : Cell}
    (h : Touches provider address before after) (hc : before.get? other = some cell)
    (hend : provider.ends = true → address ≠ other) :
    ∃ cell', after.get? other = some cell' ∧ cell'.isScript = cell.isScript := by
  cases hp : provider.ends with
  | false => exact h.keeps hp _ _ hc
  | true =>
    obtain ⟨cell', hc', halike⟩ := h.frame.kept (fun heq => hend hp heq.symm) hc
    exact ⟨cell', hc', halike.isScript_eq⟩

/-- **A routine that is called for an object** and makes none. -/
theorem Touches.custody {provider : Provider} {address : UInt64}
    (h : Touches provider address before after) {call : Call} (hmade : call.made? = none)
    (hend : provider.ends = true → call.ended? = some address) :
    Custody [call] before (after.called call) :=
  .called h.frame.unused hmade fun hc hne => h.kept hc fun hp heq => hne (heq ▸ hend hp)

theorem made_arrayGetiter {array iterator : UInt64} (hwf : before.WellFormed)
    (h : before.arrayGetiter array = .ok (iterator, after)) :
    before.unused ≤ iterator.toNat ∧ iterator.toNat < after.unused ∧
      ∃ cell, after.get? iterator = some cell ∧ cell.isScript = false := by
  unfold arrayGetiter at h
  obtain ⟨address, store, hmade, heq⟩ := made_of_map (by decide) (by decide) h
  cases heq
  exact ⟨hmade.unused, hmade.bound, _, hmade.found hwf, rfl⟩

theorem made_scriptGetiter {value iterator : UInt64} (hwf : before.WellFormed)
    (h : before.scriptGetiter value = .ok (iterator, after)) :
    before.unused ≤ iterator.toNat ∧ iterator.toNat < after.unused ∧
      ∃ cell, after.get? iterator = some cell ∧ cell.isScript = true := by
  unfold scriptGetiter at h
  split at h
  · next script hs =>
    obtain ⟨address, store, hmade, heq⟩ := made_of_map (by decide) (by decide) h
    cases heq
    -- the script has counted the copy before this is made
    have hset : Frame (Only value) before ((before.set value
        (.script { script with copies := script.copies + 1 })).log (.getiter script.name)) :=
      (frame_set _ (only_self _)).trans (frame_of_cells_eq rfl rfl)
    exact ⟨hmade.unused, hmade.bound, _, hmade.found (hset.wellFormed hwf), rfl⟩
  · cases h

/-- What a routine makes is new and of its sort. -/
theorem made_getiter {provider : Provider} {value iterator : UInt64} {script : Bool}
    (hwf : before.WellFormed) (h : provider.getiter value before = .ok (iterator, after))
    (hmakes : provider.makes? = some script) :
    before.unused ≤ iterator.toNat ∧ iterator.toNat < after.unused ∧
      ∃ cell, after.get? iterator = some cell ∧ cell.isScript = script := by
  unfold Provider.makes? at hmakes
  split at hmakes
  · cases hmakes
    exact made_arrayGetiter hwf h
  · cases hmakes
    exact made_scriptGetiter hwf h
  all_goals cases hmakes

/-- **A routine that makes an iterator.** -/
theorem custody_getiter {provider : Provider} {value iterator : UInt64} (hwf : before.WellFormed)
    (h : provider.getiter value before = .ok (iterator, after)) :
    Custody [.getiter provider value iterator] before
      (after.called (.getiter provider value iterator)) := by
  have htouch := (Provider.touches_getiter h).1
  have hmade : ∀ {address script},
      (Call.getiter provider value iterator).made? = some (address, script) →
        iterator = address ∧ provider.makes? = some script := by
    intro address script heq
    obtain ⟨script', hs, heq⟩ := Option.map_eq_some_iff.mp heq
    cases heq
    exact ⟨rfl, hs⟩
  refine ⟨htouch.frame.unused, fun hc hend => ?_, fun hm heq => ?_, fun hm heq _ => ?_, ?_⟩
  · refine htouch.kept hc fun hp heq => hend _ (List.mem_singleton_self _) ?_
    rw [Call.ended?, if_pos hp, heq]
  · rw [List.mem_singleton.mp hm] at heq
    obtain ⟨rfl, hmakes⟩ := hmade heq
    obtain ⟨hle, hlt, -⟩ := made_getiter hwf h hmakes
    exact ⟨hle, hlt⟩
  · rw [List.mem_singleton.mp hm] at heq
    obtain ⟨rfl, hmakes⟩ := hmade heq
    exact (made_getiter hwf h hmakes).2.2
  · rw [List.filterMap_cons]
    cases (Call.getiter provider value iterator).made? with
    | none => exact .nil
    | some made => exact List.nodup_singleton _

end Store

end PullIter
