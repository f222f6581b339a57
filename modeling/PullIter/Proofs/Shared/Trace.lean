import PullIter.Proofs.Host.Observed
import PullIter.Proofs.Shared.Life

/-!
# Who was asked for a step

Advancing an iterator asks its sources for steps, which ask theirs.  All these calls are listed in
the order in which they return, each with the store in which it was made and with its answer.  An
iterator is no source of itself, so the calls for any one iterator are in the order of time.

## Main definitions

* `Asked` — a call that advances an iterator.
* `Exec.asked`, `Exec.stretch` — the calls that a step and a number of steps make.
* `Recorded` — what holds of the calls that were made so far.

## Main results

* `Exec.leafCalls_eq_asked` — the leaves that are asked are those that a step calls.
* `Recorded.stretch` — what goes on with a step goes on with a stretch of steps.
-/

namespace PullIter

/-- A call that advances an iterator, with the store that it was made in and with its answer. -/
structure Asked where
  kind : Kind
  iterator : UInt64
  store : Store
  step : Step

namespace Asked

/-- The call is answered in this way. -/
def Holds (link : Linkage) (call : Asked) : Prop :=
  Exec.next link call.kind call.iterator call.store = .ok call.step

end Asked

/-! ### The calls of a step -/

namespace Exec

/-- A call by itself.  One that faults has no answer. -/
def asking (link : Linkage) (kind : Kind) (iterator : UInt64) (store : Store) : List Asked :=
  match next link kind iterator store with
  | .error _ => []
  | .ok step => [⟨kind, iterator, store, step⟩]

mutual

/-- The calls that advancing an iterator makes, with the call itself, in the order in which they
return. -/
def asked (link : Linkage) : Kind → UInt64 → Store → List Asked
  | .enumerate source, state, store =>
    asked link source (store.word state Layout.sourceIndex) (store.moveCount state) ++
      asking link (.enumerate source) state store
  | .zip sources, state, store =>
    askedFrom link sources state 0 store ++ asking link (.zip sources) state store
  | .generator name yields resume, handle, store =>
    asking link (.generator name yields resume) handle store
  | .external ext, iterator, store => asking link (.external ext) iterator store

/-- The calls that a round makes from an index on. -/
def askedFrom (link : Linkage) : List Kind → UInt64 → Nat → Store → List Asked
  | [], _, _, _ => []
  | kind :: kinds, state, index, store =>
    asked link kind (store.word state index) store ++
      match next link kind (store.word state index) store with
      | .error _ => []
      | .ok step =>
        if step.status.isFailure then [] else askedFrom link kinds state (index + 1) step.store

end

/-- The calls that a number of steps make, one after the other. -/
def stretch (link : Linkage) (kind : Kind) (iterator : UInt64) : Nat → Store → List Asked
  | 0, _ => []
  | n + 1, store =>
    asked link kind iterator store ++
      match next link kind iterator store with
      | .error _ => []
      | .ok step => stretch link kind iterator n step.store

variable {link : Linkage} {kind : Kind} {iterator : UInt64} {store : Store} {step : Step}

theorem asking_of_next (h : next link kind iterator store = .ok step) :
    asking link kind iterator store = [⟨kind, iterator, store, step⟩] := by
  rw [asking, h]

/-- A leaf makes no calls but its own. -/
theorem asked_leaf {role : Role} {routine : Intrinsic} (hk : kind.role? = some role)
    (hr : role.routine? = some routine) (h : next link kind iterator store = .ok step) :
    asked link kind iterator store = [⟨kind, iterator, store, step⟩] := by
  rw [← asking_of_next h]
  cases Kind.roleCases hk with
  | array => rw [Kind.array, asked]
  | iterator => rw [Kind.arrayIterator, Kind.array, Kind.iteratorKind, asked]
  | range => rw [Kind.range, asked]
  | coroutine => rw [Kind.coroutine, asked]
  | enumerate => cases hr
  | zip => cases hr

end Exec

/-- The call of a leaf that it is, if it is one. -/
def Asked.leaf? (call : Asked) : Option Exec.LeafCall :=
  match call.kind with
  | .enumerate _ | .zip _ => none
  | .generator .. | .external _ => some ⟨call.kind, call.iterator, call.store⟩

namespace Exec

variable {link : Linkage}

mutual

/-- **The leaves that are asked** are those that a step calls. -/
theorem leafCalls_eq_asked : ∀ (kind : Kind) {iterator : UInt64} {store : Store} {step : Step},
    next link kind iterator store = .ok step →
    (asked link kind iterator store).filterMap Asked.leaf? = leafCalls link kind iterator store
  | .enumerate source, state, store, step, h => by
    obtain ⟨_, _, inner, -, hn, -⟩ := next_enumerate_eq_ok h
    rw [asked, asking_of_next h, List.filterMap_append, leafCalls_eq_asked source hn, leafCalls]
    exact List.append_nil _
  | .zip sources, state, store, step, h => by
    obtain ⟨slots, valid, round, hlen, hround⟩ : ∃ slots valid round,
        slots.length = sources.length ∧
        nextRound link sources state 0 slots valid store = .ok round := by
      cases sources with
      | nil => exact ⟨[], true, _, rfl, nextRound_nil ..⟩
      | cons source sources =>
        rw [next_zip_cons] at h
        exact ⟨_, true, _, length_slots_zip _, h⟩
    rw [asked, asking_of_next h, List.filterMap_append, leafCallsFrom_eq_askedFrom sources hlen hround,
      leafCalls]
    exact List.append_nil _
  | .generator name yields resume, handle, store, step, h => by
    rw [asked, asking_of_next h, leafCalls]
    rfl
  | .external ext, iterator, store, step, h => by
    rw [asked, asking_of_next h, leafCalls]
    rfl

theorem leafCallsFrom_eq_askedFrom : ∀ (kinds : List Kind) {state : UInt64} {index : Nat}
    {slots : List Nat} {valid : Bool} {store : Store} {step : Step}, slots.length = kinds.length →
    nextRound link kinds state index slots valid store = .ok step →
    (askedFrom link kinds state index store).filterMap Asked.leaf? =
      leafCallsFrom link kinds state index store
  | [], state, index, slots, valid, store, step, hlen, h => by rw [askedFrom, leafCallsFrom]; rfl
  | kind :: kinds, state, index, slots, valid, store, step, hlen, h => by
    obtain ⟨slot, slots, rfl⟩ := List.exists_cons_of_length_eq_add_one hlen
    obtain ⟨-, inner, hn, hcases⟩ := nextRound_cons_eq_ok h
    rw [askedFrom, leafCallsFrom, List.filterMap_append, leafCalls_eq_asked kind hn, hn]
    rcases hcases with ⟨hfail, -⟩ | ⟨hgood, rest, hr, -⟩
    · simp only [hfail, if_true]
      rfl
    · simp only [hgood, Bool.false_eq_true, if_false]
      rw [leafCallsFrom_eq_askedFrom kinds (Nat.succ.inj hlen) hr]

end

end Exec

/-! ### What is recorded -/

open Linkage (runtime)

/-- A predicate on the calls that were made for shared objects before a store was reached.  It goes
on with the calls of a step, and it is kept where nothing is advanced. -/
structure Recorded (log : Cast → Store → List Asked → Prop) : Prop where
  next : ∀ {cast : Cast} {store : Store} {calls : List Asked} {kind : Kind} {role : Role}
    {iterator : UInt64} {step : Step}, Staged cast store → log cast store calls →
    kind.role? = some role → (iterator, role) ∈ cast →
    Exec.next runtime kind iterator store = .ok step →
    log cast step.store (calls ++ Exec.asked runtime kind iterator store)
  grows : ∀ {cast more : Cast} {store after : Store} {calls : List Asked}, Staged cast store →
    log cast store calls → Grows cast store more after → log more after calls

/-- Two predicates are recorded together. -/
theorem Recorded.and {log log' : Cast → Store → List Asked → Prop} (h : Recorded log)
    (h' : Recorded log') :
    Recorded fun cast store calls => log cast store calls ∧ log' cast store calls where
  next hs hlog hk hi hn := ⟨h.next hs hlog.1 hk hi hn, h'.next hs hlog.2 hk hi hn⟩
  grows hs hlog hg := ⟨h.grows hs hlog.1 hg, h'.grows hs hlog.2 hg⟩

namespace Exec

/-- What is shown is the answer of a step. -/
theorem next_of_shown {link : Linkage} {kind : Kind} {iterator : UInt64} {store last : Store}
    {outcome : Outcome} (h : shown link kind iterator store = .ok (outcome, last)) :
    ∃ step, next link kind iterator store = .ok step ∧ last = step.store ∧
      outcome = Outcome.ofStatus step.status fun () => decoded kind step.writes := by
  rw [shown] at h
  cases hn : next link kind iterator store with
  | error fault => rw [hn] at h; cases h
  | ok step => rw [hn] at h; cases h; exact ⟨step, rfl, rfl, rfl⟩

end Exec

/-- **The calls of a stretch of steps** are recorded. -/
theorem Recorded.stretch {log : Cast → Store → List Asked → Prop} (hlog : Recorded log) {cast : Cast}
    {kind : Kind} {role : Role} {iterator : UInt64} {store last : Store} {outcomes : List Outcome}
    (hk : kind.role? = some role) (hi : (iterator, role) ∈ cast)
    (h : Exec.Shows runtime kind iterator store outcomes last) :
    ∀ {calls : List Asked}, Staged cast store → log cast store calls → Staged cast last ∧
      log cast last (calls ++ Exec.stretch runtime kind iterator outcomes.length store) := by
  induction h with
  | done =>
    intro calls hs h
    rw [List.length_nil, Exec.stretch, List.append_nil]
    exact ⟨hs, h⟩
  | step head tail ih =>
    intro calls hs h
    obtain ⟨step, hn, rfl, rfl⟩ := Exec.next_of_shown head
    obtain ⟨hlast, hcalls⟩ := ih (hs.later (Exec.later_next role hs hk hi hn)) (hlog.next hs h hk hi hn)
    rw [List.length_cons, Exec.stretch, hn]
    rw [List.append_assoc] at hcalls
    exact ⟨hlast, hcalls⟩

end PullIter
