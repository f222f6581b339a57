import PullIter.Proofs.Shared.Step

/-!
# What an iterator answers only gets worse

If an iterator has no value, it has none later, and if it has failed, it fails later, whatever was
called for its sources in the meantime.  The failure stays the same, unless a source of a zip fails
that comes before the one that failed.

## Main definitions

* `Status.severity` — a value, exhaustion, a failure.
* `Exec.blame` — the way to the source that a failure comes from.
* `Sooner` — a way that turns off to an earlier source of a zip.
* `Reply` — what a step replies, and where a failure comes from.
* `Reply.Declines` — a later reply that is no better.

## Main results

* `Exec.declines_next` — **a later step is no better.**
-/

namespace PullIter

/-! ### Replies -/

namespace Status

/-- How bad a status word is: a value is better than exhaustion, and that is better than a failure. -/
def severity (status : Status) : Nat := if status = ok then 0 else if status = stop then 1 else 2

theorem severity_eq_two_iff (status : Status) : status.severity = 2 ↔ status.isFailure = true := by
  unfold severity isFailure
  split
  · simp [*]
  · split <;> simp [*]

theorem severity_le (status : Status) : status.severity ≤ 2 := by
  unfold severity
  split
  · decide
  · split <;> decide

theorem severity_eq_zero_iff (status : Status) : status.severity = 0 ↔ status = ok := by
  unfold severity
  split
  · simp [*]
  · split
    · next h => rw [h]; decide
    · simp [*]

end Status

/-- A way turns off to an earlier source of a zip than another one. -/
def Sooner (way other : List Nat) : Prop :=
  ∃ shared i j rest rest', other = shared ++ i :: rest ∧ way = shared ++ j :: rest' ∧ j < i

theorem Sooner.cons {way other : List Nat} (h : Sooner way other) (i : Nat) :
    Sooner (i :: way) (i :: other) := by
  obtain ⟨shared, first, second, rest, rest', rfl, rfl, hlt⟩ := h
  exact ⟨i :: shared, first, second, rest, rest', rfl, rfl, hlt⟩

/-- What a step replies, and, if it is a failure, the way to the source that it comes from. -/
structure Reply where
  status : Status
  way : List Nat

/-- A later reply that is no better.  A failure stays the same, or one comes before it. -/
structure Reply.Declines (before after : Reply) : Prop where
  severity : before.status.severity ≤ after.status.severity
  failure : before.status.isFailure = true → after = before ∨ Sooner after.way before.way

namespace Reply.Declines

variable {before after : Reply}

/-- Whatever failed fails later. -/
theorem isFailure (h : Declines before after) (hf : before.status.isFailure = true) :
    after.status.isFailure = true := by
  have hle := h.severity
  rw [(Status.severity_eq_two_iff _).mpr hf] at hle
  exact (Status.severity_eq_two_iff _).mp (Nat.le_antisymm (Status.severity_le _) hle)

/-- Whatever has a value later has one. -/
theorem ok (h : Declines before after) (hok : after.status = Status.ok) :
    before.status = Status.ok := by
  have hle := h.severity
  rw [hok] at hle
  exact (Status.severity_eq_zero_iff _).mp (Nat.le_zero.mp hle)

/-- A later failure is no better, if it comes before an earlier one. -/
theorem of_isFailure (hf : after.status.isFailure = true)
    (h : before.status.isFailure = true → after = before ∨ Sooner after.way before.way) :
    Declines before after :=
  ⟨(Status.severity_le _).trans (Nat.le_of_eq ((Status.severity_eq_two_iff _).mpr hf).symm), h⟩

/-- A zip replies what its source does. -/
theorem cons (h : Declines before after) (i : Nat) :
    Declines ⟨before.status, i :: before.way⟩ ⟨after.status, i :: after.way⟩ where
  severity := h.severity
  failure hf := (h.failure hf).imp (fun heq => by rw [heq]) (·.cons i)

end Reply.Declines

namespace Exec

mutual

/-- The way to the source that the failure of a step comes from: of each zip on the way, the number
of the source. -/
def blame (link : Linkage) : Kind → UInt64 → Store → List Nat
  | .enumerate source, state, store =>
    blame link source (store.word state Layout.sourceIndex) (store.moveCount state)
  | .zip sources, state, store => blameFrom link sources state 0 store
  | .generator .., _, _ | .external _, _, _ => []

/-- The way in a round from an index on. -/
def blameFrom (link : Linkage) : List Kind → UInt64 → Nat → Store → List Nat
  | [], _, _, _ => []
  | kind :: kinds, state, index, store =>
    match next link kind (store.word state index) store with
    | .error _ => []
    | .ok step =>
      if step.status.isFailure then index :: blame link kind (store.word state index) store
      else blameFrom link kinds state (index + 1) step.store

end

/-- What a step replies. -/
def reply (link : Linkage) (kind : Kind) (iterator : UInt64) (store : Store) (step : Step) : Reply :=
  ⟨step.status, blame link kind iterator store⟩

end Exec

/-! ### Leaves -/

namespace Generator

/-- An outcome that ends the body is kept. -/
theorem finished_of_resume {generator after : Generator} {outcome : Resumption}
    (h : generator.resume = .ok (outcome, after)) (hf : outcome.isFinal = true) :
    after.finished = some outcome := by
  cases hfin : generator.finished with
  | some known =>
    rw [resume_of_finished hfin] at h
    cases h
    exact hfin
  | none =>
    rw [resume, hfin] at h
    simp only at h
    split at h
    · cases h
    · cases h
      simp only [hf, if_true]

/-- Resuming does not change a generator that has ended. -/
theorem Resumed.eq_of_finished {generator after : Generator} {outcome : Resumption}
    (h : generator.Resumed after) (hf : generator.finished = some outcome) : after = generator := by
  induction h with
  | refl => rfl
  | tail _ hstep ih =>
    obtain ⟨found, hr⟩ := hstep
    rw [ih, resume_of_finished hf] at hr
    cases hr
    rfl

/-- **A generator that has ended** repeats how. -/
theorem resume_again {generator after later last : Generator} {outcome outcome' : Resumption}
    (h : generator.resume = .ok (outcome, after)) (hf : outcome.isFinal = true)
    (hl : after.Resumed later) (h' : later.resume = .ok (outcome', last)) : outcome' = outcome := by
  have hfin := finished_of_resume h hf
  rw [hl.eq_of_finished hfin, resume_of_finished hfin] at h'
  cases h'
  rfl

end Generator

namespace Exec

open Linkage (runtime)
open Reply (Declines)

variable {cast : Cast}

theorem declines_of_ok {way : List Nat} (after : Reply) :
    Declines ⟨Status.ok, way⟩ after :=
  ⟨Nat.zero_le _, fun h => by cases h⟩

theorem declines_of_stop {way : List Nat} {after : Reply} (h : after.status = Status.stop) :
    Declines ⟨Status.stop, way⟩ after :=
  ⟨by rw [h], fun h => by cases h⟩

/-- An iterator over an array that is at the end stays there. -/
theorem declines_arrayNext {iterator : UInt64} {store later : Store} {step step' : Step}
    (h : Staged cast store) (hm : (iterator, .elements) ∈ cast)
    (hs : store.arrayNext iterator = .ok step) (hl : Later cast step.store later)
    (hs' : later.arrayNext iterator = .ok step') :
    Declines ⟨step.status, []⟩ ⟨step'.status, []⟩ := by
  have hstep := Store.later_arrayNext h hm hs
  have hbetween := hstep.trans hl
  obtain ⟨block, words, elements, calls, hcell, harray, ha, -, hcases⟩ :=
    Store.arrayNext_eq_ok h hm hs
  obtain ⟨block', words', elements', calls', hcell', harray', ha', -, hcases'⟩ :=
    Store.arrayNext_eq_ok (h.later hbetween) hm hs'
  rcases hcases with ⟨value, -, rfl⟩ | ⟨hnone, rfl⟩
  · exact declines_of_ok _
  · obtain ⟨old, hold, hpass⟩ := hbetween.passes hm hcell'
    rw [hcell] at hold
    cases hold
    cases hpass with
    | elements same hindex =>
    rw [same] at ha' harray'
    obtain ⟨old, hold, hpass⟩ := hbetween.passes harray ha'
    rw [ha] at hold
    cases hold
    cases hpass
    rw [List.getElem?_eq_none_iff] at hnone
    rcases hcases' with ⟨value, hv, rfl⟩ | ⟨-, rfl⟩
    · have hlt := (List.getElem?_eq_some_iff.mp hv).1
      omega
    · exact declines_of_stop rfl

/-- So does a range. -/
theorem declines_rangeNext {iterator : UInt64} {store later : Store} {step step' : Step}
    (h : Staged cast store) (hm : (iterator, .range) ∈ cast)
    (hs : store.rangeNext iterator = .ok step) (hl : Later cast step.store later)
    (hs' : later.rangeNext iterator = .ok step') :
    Declines ⟨step.status, []⟩ ⟨step'.status, []⟩ := by
  have hbetween := (Store.later_rangeNext h hm hs).trans hl
  obtain ⟨block, words, _, hcell, -, -, -, hcases⟩ := Store.rangeNext_eq_ok hs
  obtain ⟨block', words', _, hcell', -, -, -, hcases'⟩ := Store.rangeNext_eq_ok hs'
  rcases hcases with ⟨-, -, hok, -⟩ | ⟨hle, -, hstop, -⟩
  · rw [hok]
    exact declines_of_ok _
  · obtain ⟨old, hold, hpass⟩ := hbetween.passes hm hcell'
    rw [hcell] at hold
    cases hold
    cases hpass with
    | range same hnumber =>
    rw [hstop]
    rcases hcases' with ⟨hlt, -⟩ | ⟨-, -, hstop', -⟩
    · rw [same] at hlt
      exact absurd hlt (Int64.not_lt.mpr (Int64.le_trans hle hnumber))
    · exact declines_of_stop hstop'

/-- A generator repeats how its body ended. -/
theorem declines_generatorNext {iterator : UInt64} {store later : Store} {step step' : Step}
    (hm : (iterator, .generator) ∈ cast)
    (hs : store.generatorNext iterator = .ok step) (hl : Later cast step.store later)
    (hs' : later.generatorNext iterator = .ok step') :
    Declines ⟨step.status, []⟩ ⟨step'.status, []⟩ := by
  obtain ⟨generator, outcome, generator', hg, hr, rfl⟩ := Store.generatorNext_eq_ok hs
  obtain ⟨again, outcome', last, hg', hr', rfl⟩ := Store.generatorNext_eq_ok hs'
  obtain ⟨old, hold, hpass⟩ := hl.passes hm hg'
  simp only at hold
  rw [Store.get?_set_self hg] at hold
  cases hold
  cases hpass with
  | generator hresumed =>
  cases hfinal : outcome.isFinal with
  | true =>
    obtain rfl := Generator.resume_again hr hfinal hresumed hr'
    exact ⟨Nat.le_refl _, fun _ => .inl rfl⟩
  | false =>
    cases outcome with
    | yielded value => exact declines_of_ok _
    | stopped => cases hfinal
    | errored code => cases hfinal

/-- A leaf has no way. -/
theorem blame_leaf {kind : Kind} {role : Role} {routine : Intrinsic} (hk : kind.role? = some role)
    (hr : role.routine? = some routine) (link : Linkage) (iterator : UInt64) (store : Store) :
    blame link kind iterator store = [] := by
  cases Kind.roleCases hk with
  | array => rw [Kind.array, blame]
  | iterator => rw [Kind.arrayIterator, Kind.array, Kind.iteratorKind, blame]
  | range => rw [Kind.range, blame]
  | coroutine => rw [Kind.coroutine, blame]
  | enumerate => cases hr
  | zip => cases hr

theorem declines_leaf {kind kind' : Kind} {role : Role} {routine : Intrinsic} {iterator : UInt64}
    {store later : Store} {step step' : Step} (h : Staged cast store)
    (hk : kind.role? = some role) (hk' : kind'.role? = some role)
    (hr : role.routine? = some routine) (hm : (iterator, role) ∈ cast)
    (hs : next runtime kind iterator store = .ok step) (hl : Later cast step.store later)
    (hs' : next runtime kind' iterator later = .ok step') :
    Declines (reply runtime kind iterator store step)
      (reply runtime kind' iterator later step') := by
  rw [reply, reply, blame_leaf hk hr, blame_leaf hk' hr]
  rw [next_leaf hk hr] at hs
  rw [next_leaf hk' hr] at hs'
  obtain ⟨inner, hn, hstatus, -, hstore⟩ := linkedNext_eq_ok hs
  obtain ⟨inner', hn', hstatus', -, -⟩ := linkedNext_eq_ok hs'
  rw [hstatus, hstatus']
  -- noting the call changes no object
  have hcalled : Later cast inner.store
      (inner.store.called (.next (.intrinsic routine) iterator inner.status)) :=
    (h.later (later_routine h hr hm hn)).later_of_cells_eq rfl rfl
  have hnoted : Later cast inner.store later := hcalled.trans (hstore ▸ hl)
  cases role with
  | elements => cases hr; exact declines_arrayNext h hm hn hnoted hn'
  | range => cases hr; exact declines_rangeNext h hm hn hnoted hn'
  | generator => cases hr; exact declines_generatorNext hm hn hnoted hn'
  | array => cases hr
  | enumerate => cases hr
  | zip => cases hr

/-! ### Combinators -/

/-- The source of an enumerate stays what it is. -/
theorem word_of_later_enumerate {store later : Store} {state : UInt64} {role : Role}
    (hl : Later cast store later) (hm : (state, .enumerate role) ∈ cast)
    (hs : (later.get? state).isSome) :
    later.word state Layout.sourceIndex = store.word state Layout.sourceIndex := by
  obtain ⟨cell, hc⟩ := Option.isSome_iff_exists.mp hs
  obtain ⟨old, hold, hpass⟩ := hl.passes hm hc
  cases hpass with
  | enumerate _ hsource =>
  rw [Store.word_of_get? hc, Store.word_of_get? hold]
  exact hsource

/-- So do the sources of a zip. -/
theorem word_of_later_zip {store later : Store} {state : UInt64} {roles : List Role}
    (hl : Later cast store later) (hm : (state, .zip roles) ∈ cast)
    (hs : (later.get? state).isSome) {index : Nat} (hi : index < roles.length) :
    later.word state index = store.word state index := by
  obtain ⟨cell, hc⟩ := Option.isSome_iff_exists.mp hs
  obtain ⟨old, hold, hpass⟩ := hl.passes hm hc
  cases hpass with
  | zip hsources =>
  rw [Store.word_of_get? hc, Store.word_of_get? hold]
  exact hsources index hi

/-- A round blames its first source if that one failed, and else the others. -/
theorem blameFrom_cons {link : Linkage} {kind : Kind} {kinds : List Kind} {state : UInt64}
    {index : Nat} {store : Store} {inner : Step}
    (hn : next link kind (store.word state index) store = .ok inner) :
    blameFrom link (kind :: kinds) state index store =
      if inner.status.isFailure then index :: blame link kind (store.word state index) store
      else blameFrom link kinds state (index + 1) inner.store := by
  rw [blameFrom, hn]

/-- A round that fails blames one of its own sources. -/
theorem blameFrom_of_isFailure {link : Linkage} : ∀ {kinds : List Kind} {state : UInt64}
    {index : Nat} {slots : List Nat} {valid : Bool} {store : Store} {step : Step},
    nextRound link kinds state index slots valid store = .ok step → step.status.isFailure = true →
    ∃ i way, index ≤ i ∧ blameFrom link kinds state index store = i :: way := by
  have hend : ∀ {valid : Bool} {store : Store} {step : Step},
      (.ok ⟨if valid then Status.ok else Status.stop, [], store⟩ : Except Fault Step) = .ok step →
      step.status.isFailure = true → False := by
    intro valid store step hs hf
    cases hs
    cases valid <;> cases hf
  intro kinds
  induction kinds with
  | nil =>
    intro state index slots valid store step hs hf
    rw [nextRound_nil] at hs
    exact (hend hs hf).elim
  | cons kind kinds ih =>
    intro state index slots valid store step hs hf
    cases slots with
    | nil =>
      rw [nextRound_noSlots] at hs
      exact (hend hs hf).elim
    | cons slot slots =>
      obtain ⟨-, inner, hn, hcases⟩ := nextRound_cons_eq_ok hs
      rw [blameFrom_cons hn]
      rcases hcases with ⟨hfail, rfl⟩ | ⟨hgood, rest, hr, rfl⟩
      · simp only [hfail, if_true]
        exact ⟨index, _, Nat.le_refl _, rfl⟩
      · obtain ⟨i, way, hle, heq⟩ := ih hr hf
        simp only [hgood, Bool.false_eq_true, if_false]
        exact ⟨i, way, Nat.le_of_succ_le hle, heq⟩

mutual

/-- **A later step is no better.** -/
theorem declines_next : ∀ (role : Role) {kind kind' : Kind} {iterator : UInt64}
    {store later : Store} {step step' : Step}, Staged cast store → kind.role? = some role →
    kind'.role? = some role → (iterator, role) ∈ cast →
    next runtime kind iterator store = .ok step → Later cast step.store later →
    next runtime kind' iterator later = .ok step' →
    Declines (reply runtime kind iterator store step) (reply runtime kind' iterator later step')
  | .array, kind, kind', iterator, store, later, step, step', h, hk, hk', hm, hs, hl, hs' => by
    cases Kind.roleCases hk
  | .elements, kind, kind', iterator, store, later, step, step', h, hk, hk', hm, hs, hl, hs' =>
    declines_leaf h hk hk' rfl hm hs hl hs'
  | .range, kind, kind', iterator, store, later, step, step', h, hk, hk', hm, hs, hl, hs' =>
    declines_leaf h hk hk' rfl hm hs hl hs'
  | .generator, kind, kind', iterator, store, later, step, step', h, hk, hk', hm, hs, hl, hs' =>
    declines_leaf h hk hk' rfl hm hs hl hs'
  | .enumerate role, kind, kind', state, store, later, step, step', h, hk, hk', hm, hs, hl, hs' => by
    have hbetween := (later_next (.enumerate role) h hk hm hs).trans hl
    cases Kind.roleCases hk with
    | enumerate hsource =>
    cases Kind.roleCases hk' with
    | enumerate hsource' =>
    obtain ⟨block, words, inner, hc, hn, rfl⟩ := next_enumerate_eq_ok hs
    obtain ⟨block', words', inner', hc', hn', rfl⟩ := next_enumerate_eq_ok hs'
    have hmoved := later_moveCount h hm
    have hmoved' := later_moveCount (h.later hbetween) hm
    have hrole := mem_cast_enumerate h hm (by rw [hc]; rfl)
    have hword := word_of_later_enumerate hbetween hm (by rw [hc']; rfl)
    -- both steps ask one source, which has only moved on in between
    rw [hword] at hn'
    have hsourceDeclines := declines_next role (h.later hmoved) hsource hsource' hrole hn
      (hl.trans hmoved') hn'
    rw [reply, reply, blame, blame, hword]
    exact hsourceDeclines
  | .zip roles, kind, kind', state, store, later, step, step', h, hk, hk', hm, hs, hl, hs' => by
    cases Kind.roleCases hk with
    | @zip sources _ hsources =>
    cases Kind.roleCases hk' with
    | @zip sources' _ hsources' =>
    rw [reply, reply, blame, blame]
    cases sources with
    | nil =>
      cases roles with
      | cons role roles =>
        obtain ⟨_, _, heq, -⟩ := Kind.roles?_eq_cons hsources
        cases heq
      | nil =>
        obtain rfl := Kind.roles?_eq_nil hsources'
        rw [next_zip_nil] at hs hs'
        cases hs
        cases hs'
        exact declines_of_stop rfl
    | cons source sources =>
      cases sources' with
      | nil =>
        cases hsources'
        cases Kind.roles?_eq_nil hsources
      | cons source' sources' =>
        rw [next_zip_cons] at hs hs'
        exact declines_nextRound roles h hsources hsources' hm
          (fun i role hi => by rwa [Nat.zero_add]) (length_slots_zip _) (length_slots_zip _) id
          hs hl hs'

/-- So is a later round over the sources of a zip from an index on. -/
theorem declines_nextRound : ∀ (roles : List Role) {all : List Role} {kinds kinds' : List Kind}
    {state : UInt64} {index : Nat} {slots slots' : List Nat} {valid valid' : Bool}
    {store later : Store} {step step' : Step}, Staged cast store →
    Kind.roles? kinds = some roles → Kind.roles? kinds' = some roles → (state, .zip all) ∈ cast →
    (∀ (i : Nat) (role : Role), roles[i]? = some role → all[index + i]? = some role) →
    slots.length = kinds.length → slots'.length = kinds'.length →
    (valid' = true → valid = true) →
    nextRound runtime kinds state index slots valid store = .ok step → Later cast step.store later →
    nextRound runtime kinds' state index slots' valid' later = .ok step' →
    Declines ⟨step.status, blameFrom runtime kinds state index store⟩
      ⟨step'.status, blameFrom runtime kinds' state index later⟩
  | [], all, kinds, kinds', state, index, slots, slots', valid, valid', store, later, step, step', h,
      hk, hk', hm, hall, hlen, hlen', hvalid, hs, hl, hs' => by
    rw [Kind.roles?_eq_nil hk, nextRound_nil] at hs
    rw [Kind.roles?_eq_nil hk', nextRound_nil] at hs'
    cases hs
    cases hs'
    cases valid with
    | true => exact declines_of_ok _
    | false =>
      have hfalse : valid' = false := by
        cases valid' with
        | false => rfl
        | true => cases hvalid rfl
      rw [hfalse]
      exact declines_of_stop rfl
  | role :: roles, all, kinds, kinds', state, index, slots, slots', valid, valid', store, later, step,
      step', h, hk, hk', hm, hall, hlen, hlen', hvalid, hs, hl, hs' => by
    obtain ⟨kind, rest, rfl, hrole, hroles⟩ := Kind.roles?_eq_cons hk
    obtain ⟨kind', rest', rfl, hrole', hroles'⟩ := Kind.roles?_eq_cons hk'
    obtain ⟨slot, slots, rfl⟩ := List.exists_cons_of_length_eq_add_one hlen
    obtain ⟨slot', slots', rfl⟩ := List.exists_cons_of_length_eq_add_one hlen'
    have hbetween := (later_nextRound (role :: roles) h hk hm hall hs).trans hl
    obtain ⟨hsome, inner, hn, hcases⟩ := nextRound_cons_eq_ok hs
    obtain ⟨hsome', inner', hn', hcases'⟩ := nextRound_cons_eq_ok hs'
    have hindex : index < all.length :=
      (List.getElem?_eq_some_iff.mp (hall 0 role rfl)).1
    have hword := word_of_later_zip hbetween hm hsome' hindex
    have hsource := mem_cast_zip h hm hsome (hall 0 role rfl)
    have hsource' := mem_cast_zip (h.later hbetween) hm hsome' (hall 0 role rfl)
    have hinner := later_next role h hrole hsource hn
    have hinner' := later_next role (h.later hbetween) hrole' hsource' hn'
    -- the source itself is no better later
    have hone : Later cast inner.store later → Declines
        (reply runtime kind (store.word state index) store inner)
        (reply runtime kind' (later.word state index) later inner') := by
      intro hlater
      rw [hword] at hn' ⊢
      exact declines_next role h hrole hrole' hsource hn hlater hn'
    rw [blameFrom_cons hn, blameFrom_cons hn']
    rcases hcases with ⟨hfail, rfl⟩ | ⟨hgood, step, hr, rfl⟩
    · -- the source had failed, so it fails now
      have hsame := hone hl
      have hfail' : inner'.status.isFailure = true := hsame.isFailure hfail
      rcases hcases' with ⟨-, rfl⟩ | ⟨hgood', -⟩
      · simp only [hfail, hfail', if_true]
        exact hsame.cons index
      · rw [hfail'] at hgood'
        cases hgood'
    · have hrest := later_nextRound roles (h.later hinner) hroles hm (getElem?_behind hall) hr
      have hsame := hone (hrest.trans hl)
      simp only [hgood, Bool.false_eq_true, if_false]
      rcases hcases' with ⟨hfail', rfl⟩ | ⟨hgood', step', hr', rfl⟩
      · simp only [hfail', if_true]
        refine Declines.of_isFailure hfail' fun hfailed => ?_
        obtain ⟨i, way, hle, heq⟩ := blameFrom_of_isFailure hr hfailed
        rw [heq]
        exact .inr ⟨[], i, index, way, _, rfl, rfl, hle⟩
      · simp only [hgood', Bool.false_eq_true, if_false]
        refine declines_nextRound roles (h.later hinner) hroles hroles' hm (getElem?_behind hall)
          (Nat.succ.inj hlen) (Nat.succ.inj hlen') ?_ hr (hl.trans hinner') hr'
        simp only [Bool.and_eq_true, decide_eq_true_eq]
        exact fun hboth => ⟨hvalid hboth.1, hsame.ok hboth.2⟩

end

end Exec

end PullIter
