import PullIter.Proofs.Shared.Decline
import PullIter.Proofs.Shared.Trace

/-!
# What iterators were asked before

An iterator that is asked once more answers no better than before, as everything has only moved on
since.  A chronicle keeps, for every call that was made, what a later answer is compared with.

## Main definitions

* `Chronicle` — the calls that were made for shared objects so far.

## Main results

* `Chronicle.declines_of_next` — **a new answer** of an iterator is no better than those before.
* `Exec.chronicle_next` — the calls of a step go on with a chronicle.
* `Chronicle.recorded` — so do the calls of anything else.
-/

namespace PullIter

open Linkage (runtime)
open Reply (Declines)

/-- What a call replies. -/
def Asked.reply (link : Linkage) (call : Asked) : Reply :=
  Exec.reply link call.kind call.iterator call.store call.step

/-- The calls that were made for shared objects, in the order of time, before a store was reached.
Everything has moved on since, and whatever an iterator answers is no better than what it answered
before. -/
structure Chronicle (cast : Cast) (store : Store) (calls : List Asked) : Prop where
  made : ∀ call ∈ calls, ∃ fewer role, fewer ⊆ cast ∧ Staged fewer call.store ∧
    call.kind.role? = some role ∧ (call.iterator, role) ∈ fewer ∧ call.Holds runtime ∧
    Later fewer call.step.store store
  declines : calls.Pairwise fun call later => call.iterator = later.iterator →
    Declines (call.reply runtime) (later.reply runtime)

namespace Chronicle

variable {cast : Cast} {store after : Store} {calls : List Asked}

theorem nil (cast : Cast) (store : Store) : Chronicle cast store [] :=
  ⟨fun _ hm => absurd hm List.not_mem_nil, .nil⟩

/-- Whatever moves the store on leaves a chronicle as it is. -/
theorem later (h : Chronicle cast store calls) (hl : Later cast store after) :
    Chronicle cast after calls where
  made := by
    intro call hm
    obtain ⟨fewer, role, hsub, hstaged, hk, hi, hcall, hlater⟩ := h.made call hm
    exact ⟨fewer, role, hsub, hstaged, hk, hi, hcall, hlater.trans (hl.mono hsub)⟩
  declines := h.declines

theorem mono {more : Cast} (h : Chronicle cast store calls) (hsub : cast ⊆ more) :
    Chronicle more store calls where
  made := by
    intro call hm
    obtain ⟨fewer, role, hfewer, hrest⟩ := h.made call hm
    exact ⟨fewer, role, fun _ he => hsub (hfewer he), hrest⟩
  declines := h.declines

/-- **A new answer** of an iterator is no better than those before. -/
theorem declines_of_next (h : Chronicle cast store calls) (hs : Staged cast store) {kind : Kind}
    {role : Role} {iterator : UInt64} {step : Step} (hk : kind.role? = some role)
    (hi : (iterator, role) ∈ cast) (hn : Exec.next runtime kind iterator store = .ok step)
    {call : Asked} (hm : call ∈ calls) (heq : call.iterator = iterator) :
    Declines (call.reply runtime) (Exec.reply runtime kind iterator store step) := by
  obtain ⟨fewer, role', hsub, hstaged, hk', hi', hcall, hlater⟩ := h.made call hm
  subst heq
  obtain rfl := hs.unique hi (hsub hi')
  exact Exec.declines_next role hstaged hk' hk hi' hcall hlater hn

/-- A call that has made some calls for other iterators is answered. -/
theorem answer {inner : List Asked} {kind : Kind} {role : Role} {iterator : UInt64} {step : Step}
    (h : Chronicle cast store calls) (hs : Staged cast store)
    (hinner : Chronicle cast step.store (calls ++ inner)) (hk : kind.role? = some role)
    (hi : (iterator, role) ∈ cast) (hn : Exec.next runtime kind iterator store = .ok step)
    (hne : ∀ call ∈ inner, call.iterator ≠ iterator) :
    Chronicle cast step.store (calls ++ (inner ++ [⟨kind, iterator, store, step⟩])) where
  made := by
    intro call hm
    rw [← List.append_assoc] at hm
    rcases List.mem_append.mp hm with hm | hm
    · exact hinner.made call hm
    · rw [List.mem_singleton.mp hm]
      have hlater := Exec.later_next role hs hk hi hn
      exact ⟨cast, role, fun _ he => he, hs, hk, hi, hn, (hs.later hlater).later_refl⟩
  declines := by
    rw [← List.append_assoc, List.pairwise_append]
    refine ⟨hinner.declines, List.pairwise_singleton .., fun call hm last hlast heq => ?_⟩
    rw [List.mem_singleton.mp hlast] at heq ⊢
    rcases List.mem_append.mp hm with hm | hm
    · exact h.declines_of_next hs hk hi hn hm heq
    · exact absurd heq (hne call hm)

end Chronicle

/-- The calls are for objects whose roles are no larger than some size. -/
def AskedWithin (cast : Cast) (size : Nat) (calls : List Asked) : Prop :=
  ∀ call ∈ calls, ∃ role, (call.iterator, role) ∈ cast ∧ sizeOf role ≤ size

namespace AskedWithin

variable {cast : Cast} {size : Nat} {calls more : List Asked}

theorem mono {size' : Nat} (h : AskedWithin cast size calls) (hle : size ≤ size') :
    AskedWithin cast size' calls := by
  intro call hm
  obtain ⟨role, hi, hsize⟩ := h call hm
  exact ⟨role, hi, Nat.le_trans hsize hle⟩

theorem append (h : AskedWithin cast size calls) (h' : AskedWithin cast size more) :
    AskedWithin cast size (calls ++ more) := by
  intro call hm
  rcases List.mem_append.mp hm with hm | hm
  · exact h call hm
  · exact h' call hm

/-- An object with a larger role is not asked. -/
theorem ne {store : Store} {iterator : UInt64} {role : Role} (h : AskedWithin cast size calls)
    (hs : Staged cast store) (hi : (iterator, role) ∈ cast) (hlt : size < sizeOf role) :
    ∀ call ∈ calls, call.iterator ≠ iterator := by
  rintro call hm rfl
  obtain ⟨role', hi', hsize⟩ := h call hm
  rw [hs.unique hi hi'] at hlt
  omega

theorem singleton {call : Asked} {role : Role} (hi : (call.iterator, role) ∈ cast) :
    AskedWithin cast (sizeOf role) [call] := by
  intro found hm
  rw [List.mem_singleton.mp hm]
  exact ⟨role, hi, Nat.le_refl _⟩

end AskedWithin

namespace Exec

variable {cast : Cast}

theorem chronicle_leaf {kind : Kind} {role : Role} {routine : Intrinsic} {iterator : UInt64}
    {store : Store} {step : Step} {calls : List Asked} (hs : Staged cast store)
    (h : Chronicle cast store calls) (hk : kind.role? = some role)
    (hr : role.routine? = some routine) (hi : (iterator, role) ∈ cast)
    (hn : next runtime kind iterator store = .ok step) :
    Chronicle cast step.store (calls ++ asked runtime kind iterator store) ∧
      AskedWithin cast (sizeOf role) (asked runtime kind iterator store) := by
  rw [asked_leaf hk hr hn]
  refine ⟨?_, .singleton hi⟩
  refine @Chronicle.answer _ _ _ [] _ _ _ _ h hs ?_ hk hi hn fun _ hm => absurd hm List.not_mem_nil
  rw [List.append_nil]
  exact h.later (later_next role hs hk hi hn)

mutual

/-- **The calls of a step** go on with a chronicle. -/
theorem chronicle_next : ∀ (role : Role) {kind : Kind} {iterator : UInt64} {store : Store}
    {step : Step} {calls : List Asked}, Staged cast store → Chronicle cast store calls →
    kind.role? = some role → (iterator, role) ∈ cast →
    next runtime kind iterator store = .ok step →
    Chronicle cast step.store (calls ++ asked runtime kind iterator store) ∧
      AskedWithin cast (sizeOf role) (asked runtime kind iterator store)
  | .array, kind, iterator, store, step, calls, hs, h, hk, hi, hn => by cases Kind.roleCases hk
  | .elements, kind, iterator, store, step, calls, hs, h, hk, hi, hn =>
    chronicle_leaf hs h hk rfl hi hn
  | .range, kind, iterator, store, step, calls, hs, h, hk, hi, hn =>
    chronicle_leaf hs h hk rfl hi hn
  | .generator, kind, iterator, store, step, calls, hs, h, hk, hi, hn =>
    chronicle_leaf hs h hk rfl hi hn
  | .enumerate role, kind, state, store, step, calls, hs, h, hk, hi, hn => by
    cases Kind.roleCases hk with
    | enumerate hsource =>
    obtain ⟨block, words, inner, hc, hin, hstep⟩ := next_enumerate_eq_ok hn
    have hmoved := later_moveCount hs hi
    have hrole := mem_cast_enumerate hs hi (by rw [hc]; rfl)
    obtain ⟨hinner, hwithin⟩ :=
      chronicle_next role (hs.later hmoved) (h.later hmoved) hsource hrole hin
    have hstore : step.store = inner.store := by rw [hstep]; rfl
    rw [← hstore] at hinner
    -- what is asked has smaller roles, so the enumerate itself is not among it
    have hlt : sizeOf role < sizeOf (Role.enumerate role) := by simp
    rw [asked, asking_of_next hn]
    exact ⟨h.answer hs hinner hk hi hn (hwithin.ne hs hi hlt),
      (hwithin.mono (Nat.le_of_lt hlt)).append (.singleton hi)⟩
  | .zip roles, kind, state, store, step, calls, hs, h, hk, hi, hn => by
    have hlt : sizeOf roles < sizeOf (Role.zip roles) := by simp
    cases Kind.roleCases hk with
    | @zip sources _ hsources =>
    have hround : Chronicle cast step.store (calls ++ askedFrom runtime sources state 0 store) ∧
        AskedWithin cast (sizeOf roles) (askedFrom runtime sources state 0 store) := by
      cases sources with
      | nil =>
        rw [next_zip_nil] at hn
        cases hn
        rw [askedFrom, List.append_nil]
        exact ⟨h, fun _ hm => absurd hm List.not_mem_nil⟩
      | cons source sources =>
        rw [next_zip_cons] at hn
        exact chronicle_nextRound roles hs h hsources hi (fun i role hr => by rwa [Nat.zero_add])
          (length_slots_zip _) hn
    rw [asked, asking_of_next hn]
    exact ⟨h.answer hs hround.1 hk hi hn (hround.2.ne hs hi hlt),
      (hround.2.mono (Nat.le_of_lt hlt)).append (.singleton hi)⟩

/-- So do the calls of a round from an index on. -/
theorem chronicle_nextRound : ∀ (roles : List Role) {all : List Role} {kinds : List Kind}
    {state : UInt64} {index : Nat} {slots : List Nat} {valid : Bool} {store : Store} {step : Step}
    {calls : List Asked}, Staged cast store → Chronicle cast store calls →
    Kind.roles? kinds = some roles → (state, .zip all) ∈ cast →
    (∀ (i : Nat) (role : Role), roles[i]? = some role → all[index + i]? = some role) →
    slots.length = kinds.length →
    nextRound runtime kinds state index slots valid store = .ok step →
    Chronicle cast step.store (calls ++ askedFrom runtime kinds state index store) ∧
      AskedWithin cast (sizeOf roles) (askedFrom runtime kinds state index store)
  | [], all, kinds, state, index, slots, valid, store, step, calls, hs, h, hk, hi, hall, hlen,
      hn => by
    obtain rfl := Kind.roles?_eq_nil hk
    rw [nextRound_nil] at hn
    cases hn
    rw [askedFrom, List.append_nil]
    exact ⟨h, fun _ hm => absurd hm List.not_mem_nil⟩
  | role :: roles, all, kinds, state, index, slots, valid, store, step, calls, hs, h, hk, hi, hall,
      hlen, hn => by
    obtain ⟨kind, rest, rfl, hrole, hroles⟩ := Kind.roles?_eq_cons hk
    obtain ⟨slot, slots, rfl⟩ := List.exists_cons_of_length_eq_add_one hlen
    obtain ⟨hsome, inner, hin, hcases⟩ := nextRound_cons_eq_ok hn
    have hsource := mem_cast_zip hs hi hsome (hall 0 role rfl)
    have hlater := later_next role hs hrole hsource hin
    obtain ⟨hinner, hwithin⟩ := chronicle_next role hs h hrole hsource hin
    have hfirst : sizeOf role ≤ sizeOf (role :: roles) := by simp; omega
    have hothers : sizeOf roles ≤ sizeOf (role :: roles) := by simp
    rw [askedFrom, hin]
    rcases hcases with ⟨hfail, rfl⟩ | ⟨hgood, last, hr, rfl⟩
    · simp only [hfail, if_true, List.append_nil]
      exact ⟨hinner, hwithin.mono hfirst⟩
    · simp only [hgood, Bool.false_eq_true, if_false]
      obtain ⟨hrest, hwithin'⟩ := chronicle_nextRound roles (hs.later hlater) hinner hroles hi
        (getElem?_behind hall) (Nat.succ.inj hlen) hr
      rw [List.append_assoc] at hrest
      exact ⟨hrest, (hwithin.mono hfirst).append (hwithin'.mono hothers)⟩

end

end Exec

/-- **Chronicles are recorded.** -/
theorem Chronicle.recorded : Recorded Chronicle where
  next hs h hk hi hn := (Exec.chronicle_next _ hs h hk hi hn).1
  grows hs h hg := (h.later (hg.later hs)).mono hg.subset

end PullIter
