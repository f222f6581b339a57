import PullIter.Proofs.Unit.Growth
import PullIter.Proofs.Unit.Plan

/-!
# Requiring an entry point

An entry point that is required is made available first, and then what its body calls; what is
available already is not looked into again.  While the calls of an entry point are being
required, that entry point is available and its plan is not.  Nothing that is still to be
required for it can come back to it, since calls nest less deep than their caller.  So in a unit
whose other entry points have their plans available, requiring an entry point makes its plan
available, in order.

## Main definitions

* `Compiler.Settled` — all available entry points but the pending ones have their plans available.

## Main results

* `require_eq` — the bound on how deep the calls nest is never reached.
* `require_eq_ensureAll` — requiring an entry point makes its plan available.
-/

namespace PullIter

namespace Compiler

/-! ### The bound on the nesting -/

theorem requireWithin_succ (depth : Nat) (unit : Compiler) (entry : Entry) :
    requireWithin (depth + 1) unit entry =
      if (unit.registry.entryKey? entry).isSome then .ok unit
      else unit.provide entry >>= fun unit => entry.calls.foldlM (requireWithin depth) unit := by
  rw [requireWithin]
  split
  · rfl
  · cases unit.provide entry <;> rfl

/-- Two ways of going through a list agree if they agree at each of its entries. -/
theorem foldlM_congr {step other : Compiler → Entry → Except Error Compiler} {entries : List Entry}
    (h : ∀ entry ∈ entries, ∀ unit, step unit entry = other unit entry) (unit : Compiler) :
    entries.foldlM step unit = entries.foldlM other unit := by
  induction entries generalizing unit with
  | nil => rfl
  | cons entry rest ih =>
    rw [List.foldlM_cons, List.foldlM_cons, h entry (List.mem_cons_self ..) unit]
    exact bind_congr fun unit => ih (fun entry he => h entry (List.mem_cons_of_mem _ he)) unit

/-- Any bound that is not below the depth of an entry point does. -/
theorem requireWithin_of_le : ∀ {depth : Nat} {entry : Entry}, entry.depth ≤ depth →
    ∀ unit, requireWithin depth unit entry = unit.require entry
  | 0, entry, h, unit => by rw [require, Nat.le_zero.mp h]
  | depth + 1, entry, h, unit => by
    rw [require, requireWithin_succ]
    cases hd : entry.depth with
    | zero =>
      -- an entry point of depth zero calls nothing
      have hcalls : entry.calls = [] := by
        refine List.eq_nil_iff_forall_not_mem.mpr fun callee hc => ?_
        have := Entry.depth_lt_of_mem_calls hc
        omega
      rw [requireWithin, ensure, hcalls]
      split
      · rfl
      · cases unit.provide entry <;> rfl
    | succ bound =>
      rw [requireWithin_succ]
      refine ite_congr rfl (fun _ => rfl) fun _ => bind_congr fun unit => ?_
      refine foldlM_congr (fun callee hc unit => ?_) unit
      have := Entry.depth_lt_of_mem_calls hc
      rw [requireWithin_of_le (by omega), requireWithin_of_le (by omega)]

/-- **Requiring an entry point**: unless it is available, it is made available, and then what its
body calls is required in turn. -/
theorem require_eq (unit : Compiler) (entry : Entry) :
    unit.require entry =
      if (unit.registry.entryKey? entry).isSome then .ok unit
      else unit.provide entry >>= fun unit => entry.calls.foldlM require unit := by
  rw [← requireWithin_of_le (Nat.le_succ entry.depth), requireWithin_succ]
  refine ite_congr rfl (fun _ => rfl) fun _ => bind_congr fun unit => ?_
  refine foldlM_congr (fun callee hc unit => ?_) unit
  exact requireWithin_of_le (Nat.le_of_lt (Entry.depth_lt_of_mem_calls hc)) unit

/-! ### Entry points in order -/

theorem ensureAll_append (unit : Compiler) (first second : List Entry) :
    unit.ensureAll (first ++ second) =
      unit.ensureAll first >>= fun unit => unit.ensureAll second := by
  induction first generalizing unit with
  | nil => rfl
  | cons entry rest ih =>
    rw [List.cons_append, ensureAll, ensureAll]
    cases unit.ensure entry with
    | error e => rfl
    | ok mid => exact ih mid

/-- What is available already stays as it is. -/
theorem ensureAll_of_available {unit : Compiler} {entries : List Entry}
    (h : ∀ {entry}, entry ∈ entries → (unit.registry.entryKey? entry).isSome) :
    unit.ensureAll entries = .ok unit := by
  induction entries with
  | nil => rfl
  | cons entry rest ih =>
    rw [ensureAll, ensure, if_pos (h (List.mem_cons_self ..))]
    exact ih fun he => h (List.mem_cons_of_mem _ he)

/-! ### Settled units -/

/-- Every available entry point has its plan available, unless it is pending. -/
def Settled (unit : Compiler) (pending : Entry → Prop) : Prop :=
  ∀ entry, (unit.registry.entryKey? entry).isSome → ¬pending entry →
    ∀ other ∈ entry.plan, (unit.registry.entryKey? other).isSome

/-- An entry point that is made available makes the unit no less settled if it is pending. -/
theorem Settled.ensure {unit after : Compiler} {pending : Entry → Prop} {entry : Entry}
    (h : unit.Settled pending) (ha : unit.ensure entry = .ok after) (hp : pending entry) :
    after.Settled pending := by
  have hadds := adds_ensure ha
  intro found hf hn other ho
  have hne : found ≠ entry := fun he => hn (he ▸ hp)
  rw [hadds.other hne] at hf
  exact hadds.grows.entry (h found hf hn other ho)

/-- A plan that is made available makes the unit no less settled. -/
theorem Settled.ensureAll_plan {unit after : Compiler} {pending : Entry → Prop} {entry : Entry}
    (h : unit.Settled pending) (hp : entry.Proper) (ha : unit.ensureAll entry.plan = .ok after) :
    after.Settled pending := by
  have hadds := addsAll_ensureAll ha
  intro found hf hn other ho
  by_cases hmem : found ∈ entry.plan
  · exact hadds.found (hp.plan_subset hmem ho)
  · rw [hadds.other hmem] at hf
    exact hadds.grows.entry (h found hf hn other ho)

/-- Going through entry points one by one is making all their plans available, if it is so for
each of them. -/
theorem foldlM_eq_ensureAll {step : Compiler → Entry → Except Error Compiler}
    {pending : Entry → Prop} {entries : List Entry} (hproper : ∀ entry ∈ entries, entry.Proper)
    (hstep : ∀ entry ∈ entries, ∀ {unit : Compiler}, unit.Settled pending →
      step unit entry = unit.ensureAll entry.plan) {unit : Compiler} (h : unit.Settled pending) :
    entries.foldlM step unit = unit.ensureAll (entries.flatMap Entry.plan) := by
  induction entries generalizing unit with
  | nil => rfl
  | cons entry rest ih =>
    rw [List.foldlM_cons, List.flatMap_cons, ensureAll_append,
      hstep entry (List.mem_cons_self ..) h]
    cases ha : unit.ensureAll entry.plan with
    | error e => rfl
    | ok mid =>
      exact ih (fun other ho => hproper other (List.mem_cons_of_mem _ ho))
        (fun other ho => hstep other (List.mem_cons_of_mem _ ho))
        (h.ensureAll_plan (hproper entry (List.mem_cons_self ..)) ha)

/-- **Requiring an entry point** makes its plan available, if only what nests deeper is pending. -/
theorem require_eq_ensureAll {unit : Compiler} {pending : Entry → Prop} {entry : Entry}
    (hproper : entry.Proper) (hpending : ∀ other, other.depth ≤ entry.depth → ¬pending other)
    (h : unit.Settled pending) : unit.require entry = unit.ensureAll entry.plan := by
  -- by induction on how deep the calls nest; the caller is pending while its calls are required
  induction hd : entry.depth using Nat.strongRecOn generalizing entry unit pending with
  | ind depth ih =>
    subst hd
    rw [require_eq]
    split
    · next hs => exact (ensureAll_of_available fun ho =>
        h entry hs (hpending _ (Nat.le_refl _)) _ ho).symm
    · next hs =>
      have hensure : unit.ensure entry = unit.provide entry := if_neg hs
      rw [hproper.plan_eq, ensureAll, hensure]
      cases hp : unit.provide entry with
      | error e => rfl
      | ok mid =>
        have hunit : unit.Settled fun other => pending other ∨ entry.depth ≤ other.depth :=
          fun found hf hn => h found hf fun hp => hn (.inl hp)
        have hmid := hunit.ensure (hensure.trans hp) (.inr (Nat.le_refl _))
        refine foldlM_eq_ensureAll (fun callee hc => hproper.of_mem_calls hc) ?_ hmid
        intro callee hc unit hu
        have hlt := Entry.depth_lt_of_mem_calls hc
        refine ih _ hlt (hproper.of_mem_calls hc) ?_ hu rfl
        rintro other ho (hp | hle)
        · exact hpending other (by omega) hp
        · omega

end Compiler

end PullIter
