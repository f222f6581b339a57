import Mathlib.Data.List.Basic
import Mathlib.Logic.Relation
import PullIter.Compiler.Basic

/-!
# The plan of a request

What a request makes available can be read off it before any request is made: the entry
points that answer it, each followed by the plans of the entry points that its body calls.

## Main definitions

* `Entry.plan`, `Request.plan` — an entry point with everything that it calls, directly or not,
  and the same for all that answers a request.
* `Entry.Reaches` — an entry point calls another, directly or not, or is the other.
* `Entry.Proper` — an entry point for a right kind that only advances iterators.
* `Kind.Within` — a kind that uses symbols as another does, and is right if the other is.

## Main results

* `Entry.Proper.plan_eq` — the plan of an entry point is itself, and the plans of its calls.
* `Entry.Proper.mem_plan_iff` — the plan of an entry point holds what the entry point reaches.
* `within_of_mem_requestPlan` — the plan of a request stays within the kind of the request.
* `eq_or_op_of_mem_plan` — besides itself, an entry point calls for steps and releases only.
-/

namespace PullIter

/-! ### Plans -/

namespace Entry

mutual

/-- Advancing what `getiter` returns for a value, with all that it calls, the caller
before the called. -/
def nextPlan : Kind → List Entry
  | .enumerate source => ⟨.iternext, .enumerate source⟩ :: nextPlan source
  | .zip sources => ⟨.iternext, .zip sources⟩ :: nextPlans sources
  | .generator name yields resume => [⟨.iternext, .generator name yields resume⟩]
  | .external ext => [⟨.iternext, .external ext.made⟩]

/-- The same for every source of a list. -/
def nextPlans : List Kind → List Entry
  | [] => []
  | kind :: rest => nextPlan kind ++ nextPlans rest

end

/-- The entry point with everything that it calls, the caller before the called. -/
def plan (entry : Entry) : List Entry :=
  match entry.op with
  | .getiter | .construct _ => [entry]
  | .iternext => nextPlan entry.kind
  | .release => entry :: entry.calls
  | .forEach => entry :: (nextPlan entry.kind ++ sourceRelease entry.kind)

end Entry

/-- The entry points that answer a request, and all that they call, in the order in which
they are declared. -/
def Request.plan (request : Request) : List Entry := request.seeds.flatMap Entry.plan

/-! ### The kinds of a plan -/

namespace Kind

theorem map_fst_symbolUses_external (ext : External) :
    ext.symbolUses.map Prod.fst = ext.symbols := by
  induction ext with
  | iterator name yields next release => cases release <;> rfl
  | iterable name yields getiter made ih => simp [External.symbolUses, External.symbols, ih]

mutual

/-- The symbols that are used in some shape are the symbols. -/
theorem map_fst_symbolUses : ∀ kind : Kind, kind.symbolUses.map Prod.fst = kind.symbols
  | .enumerate source => map_fst_symbolUses source
  | .zip sources => map_fst_symbolUsesList sources
  | .generator .. => rfl
  | .external ext => map_fst_symbolUses_external ext

theorem map_fst_symbolUsesList : ∀ kinds : List Kind,
    (symbolUsesList kinds).map Prod.fst = symbolsList kinds
  | [] => rfl
  | kind :: rest => by
    rw [symbolUsesList, symbolsList, List.map_append, map_fst_symbolUses kind,
      map_fst_symbolUsesList rest]

end

/-- A kind uses symbols as another does, and the kind is right if the other is. -/
structure Within (part whole : Kind) : Prop where
  uses : part.symbolUses ⊆ whole.symbolUses
  check : whole.check = .ok () → part.check = .ok ()

theorem Within.symbols {part whole : Kind} (h : part.Within whole) {symbol : String}
    (hs : symbol ∈ part.symbols) : symbol ∈ whole.symbols := by
  rw [← map_fst_symbolUses] at hs ⊢
  exact List.map_subset _ h.uses hs

theorem Within.refl (kind : Kind) : kind.Within kind := ⟨fun _ h => h, fun h => h⟩

theorem Within.trans {a b c : Kind} (h : a.Within b) (h' : b.Within c) : a.Within c :=
  ⟨fun _ hs => h'.uses (h.uses hs), fun hc => h.check (h'.check hc)⟩

theorem within_enumerate (source : Kind) : source.Within (.enumerate source) :=
  ⟨fun _ h => h, fun h => h⟩

theorem symbolUses_of_mem {source : Kind} : ∀ {sources : List Kind}, source ∈ sources →
    source.symbolUses ⊆ symbolUsesList sources
  | kind :: rest, hm, use, hu => by
    rw [symbolUsesList, List.mem_append]
    rcases List.mem_cons.mp hm with rfl | hm
    · exact .inl hu
    · exact .inr (symbolUses_of_mem hm hu)

theorem check_of_mem {source : Kind} : ∀ {sources : List Kind}, source ∈ sources →
    checkList sources = .ok () → source.check = .ok ()
  | kind :: rest, hm, hc => by
    rw [checkList] at hc
    split at hc
    · next hk =>
      rcases List.mem_cons.mp hm with rfl | hm
      · exact hk
      · exact check_of_mem hm hc
    · cases hc

theorem within_zip {source : Kind} {sources : List Kind} (h : source ∈ sources) :
    source.Within (.zip sources) :=
  ⟨fun _ hs => by rw [symbolUses]; exact symbolUses_of_mem h hs,
    fun hc => by rw [Kind.check] at hc; exact check_of_mem h hc⟩

/-- What an external iterable makes is an iterator, if the iterable is right. -/
theorem check_made {ext : External} (h : ext.check = .ok ()) : ext.made.check = .ok () := by
  cases ext with
  | iterator => rfl
  | iterable name yields getiter made =>
    rw [External.check] at h
    split at h
    · next hi =>
      cases made with
      | iterator => rfl
      | iterable => cases hi
    · cases h

theorem within_made (ext : External) : (Kind.external ext.made).Within (.external ext) := by
  constructor
  · intro use hu
    cases ext with
    | iterator => exact hu
    | iterable name yields getiter made => exact List.mem_cons_of_mem _ hu
  · intro hc
    rw [Kind.check] at hc ⊢
    exact check_made hc

/-- What `getiter` returns is of a kind within the kind of the value. -/
theorem within_iteratorKind (kind : Kind) : kind.iteratorKind.Within kind := by
  cases kind with
  | external ext => exact within_made ext
  | enumerate => exact Within.refl _
  | zip => exact Within.refl _
  | generator => exact Within.refl _

mutual

theorem within_of_mem_nextPlan : ∀ {kind : Kind} {entry : Entry}, entry ∈ Entry.nextPlan kind →
    entry.kind.Within kind
  | .enumerate source, entry, h => by
    rw [Entry.nextPlan] at h
    rcases List.mem_cons.mp h with rfl | h
    · exact Within.refl _
    · exact (within_of_mem_nextPlan h).trans (within_enumerate source)
  | .zip sources, entry, h => by
    rw [Entry.nextPlan] at h
    rcases List.mem_cons.mp h with rfl | h
    · exact Within.refl _
    · obtain ⟨source, hm, hw⟩ := within_of_mem_nextPlans h
      exact hw.trans (within_zip hm)
  | .generator .., entry, h => by
    rw [Entry.nextPlan, List.mem_singleton] at h
    subst h
    exact Within.refl _
  | .external ext, entry, h => by
    rw [Entry.nextPlan, List.mem_singleton] at h
    subst h
    exact within_made ext

theorem within_of_mem_nextPlans : ∀ {kinds : List Kind} {entry : Entry},
    entry ∈ Entry.nextPlans kinds → ∃ kind ∈ kinds, entry.kind.Within kind
  | [], entry, h => by rw [Entry.nextPlans] at h; simp at h
  | kind :: rest, entry, h => by
    rw [Entry.nextPlans, List.mem_append] at h
    rcases h with h | h
    · exact ⟨kind, List.mem_cons_self .., within_of_mem_nextPlan h⟩
    · obtain ⟨source, hm, hw⟩ := within_of_mem_nextPlans h
      exact ⟨source, List.mem_cons_of_mem _ hm, hw⟩

end

theorem within_of_mem_sourceRelease {source : Kind} {entry : Entry}
    (h : entry ∈ Entry.sourceRelease source) : entry.kind.Within source := by
  unfold Entry.sourceRelease at h
  split at h
  · rw [List.mem_singleton] at h
    subst h
    exact within_iteratorKind source
  · simp at h

theorem within_of_mem_calls_release {kind : Kind} {entry : Entry}
    (h : entry ∈ Entry.calls ⟨.release, kind⟩) : entry.kind.Within kind := by
  cases kind with
  | enumerate source => exact (within_of_mem_sourceRelease h).trans (within_enumerate source)
  | zip sources =>
    obtain ⟨source, hm, hw⟩ := List.mem_flatMap.mp h
    exact (within_of_mem_sourceRelease hw).trans (within_zip hm)
  | generator => simp [Entry.calls] at h
  | external => simp [Entry.calls] at h

/-- An entry point and all that it calls are for kinds within the kind of the entry point. -/
theorem within_of_mem_plan {seed entry : Entry} (h : entry ∈ seed.plan) :
    entry.kind.Within seed.kind := by
  obtain ⟨op, kind⟩ := seed
  cases op with
  | getiter => rw [List.mem_singleton.mp h]; exact Within.refl _
  | construct args => rw [List.mem_singleton.mp h]; exact Within.refl _
  | iternext => exact within_of_mem_nextPlan h
  | release =>
    rcases List.mem_cons.mp h with rfl | h
    · exact Within.refl _
    · exact within_of_mem_calls_release h
  | forEach =>
    rcases List.mem_cons.mp h with rfl | h
    · exact Within.refl _
    · rcases List.mem_append.mp h with h | h
      · exact within_of_mem_nextPlan h
      · exact within_of_mem_sourceRelease h

/-- Everything a request asks for is for kinds within the kind of the request. -/
theorem within_of_mem_requestPlan {request : Request} {entry : Entry} (h : entry ∈ request.plan) :
    entry.kind.Within request.kind := by
  unfold Request.plan at h
  obtain ⟨seed, hseed, hentry⟩ := List.mem_flatMap.mp h
  refine (within_of_mem_plan hentry).trans ?_
  cases request with
  | iterator kind =>
    simp only [Request.seeds_iterator, List.mem_cons] at hseed
    rcases hseed with rfl | rfl | hseed
    · exact Within.refl _
    · exact within_iteratorKind kind
    · exact within_of_mem_sourceRelease hseed
  | constructor kind args =>
    simp only [Request.seeds, List.mem_cons] at hseed
    rcases hseed with rfl | rfl | hseed
    · exact Within.refl _
    · exact Within.refl _
    · split at hseed
      · rw [List.mem_singleton.mp hseed]; exact Within.refl _
      · simp at hseed
  | loop kind => rw [List.mem_singleton.mp hseed]; exact Within.refl _

/-! ### The operations of a plan -/

mutual

theorem op_of_mem_nextPlan : ∀ {kind : Kind} {entry : Entry}, entry ∈ Entry.nextPlan kind →
    entry.op = .iternext
  | .enumerate source, entry, h => by
    rw [Entry.nextPlan] at h
    rcases List.mem_cons.mp h with rfl | h
    · rfl
    · exact op_of_mem_nextPlan h
  | .zip sources, entry, h => by
    rw [Entry.nextPlan] at h
    rcases List.mem_cons.mp h with rfl | h
    · rfl
    · exact op_of_mem_nextPlans h
  | .generator .., entry, h => by
    rw [Entry.nextPlan, List.mem_singleton] at h
    rw [h]
  | .external ext, entry, h => by
    rw [Entry.nextPlan, List.mem_singleton] at h
    rw [h]

theorem op_of_mem_nextPlans : ∀ {kinds : List Kind} {entry : Entry},
    entry ∈ Entry.nextPlans kinds → entry.op = .iternext
  | [], entry, h => by rw [Entry.nextPlans] at h; simp at h
  | kind :: rest, entry, h => by
    rw [Entry.nextPlans, List.mem_append] at h
    rcases h with h | h
    · exact op_of_mem_nextPlan h
    · exact op_of_mem_nextPlans h

end

/-- Advancing what `getiter` returns is part of its own plan. -/
theorem self_mem_plan_iteratorKind {kind : Kind} (h : kind.check = .ok ()) :
    ⟨.iternext, kind.iteratorKind⟩ ∈ Entry.plan ⟨.iternext, kind.iteratorKind⟩ := by
  cases kind with
  | enumerate source => exact List.mem_cons_self ..
  | zip sources => exact List.mem_cons_self ..
  | generator => exact List.mem_cons_self ..
  | external ext =>
    cases ext with
    | iterator => exact List.mem_cons_self ..
    | iterable name yields getiter made =>
      cases made with
      | iterator => exact List.mem_cons_self ..
      | iterable => cases h

theorem op_of_mem_sourceRelease {source : Kind} {entry : Entry}
    (h : entry ∈ Entry.sourceRelease source) : entry.op = .release := by
  unfold Entry.sourceRelease at h
  split at h
  · rw [List.mem_singleton.mp h]
  · simp at h

theorem op_of_mem_calls_release {kind : Kind} {entry : Entry}
    (h : entry ∈ Entry.calls ⟨.release, kind⟩) : entry.op = .release := by
  cases kind with
  | enumerate source => exact op_of_mem_sourceRelease h
  | zip sources =>
    obtain ⟨source, -, hs⟩ := List.mem_flatMap.mp h
    exact op_of_mem_sourceRelease hs
  | generator => simp [Entry.calls] at h
  | external => simp [Entry.calls] at h

/-- Besides itself, an entry point calls for steps and releases only. -/
theorem eq_or_op_of_mem_plan {seed entry : Entry} (h : entry ∈ seed.plan) :
    entry = seed ∨ entry.op = .iternext ∨ entry.op = .release := by
  obtain ⟨op, kind⟩ := seed
  cases op with
  | getiter => exact .inl (List.mem_singleton.mp h)
  | construct args => exact .inl (List.mem_singleton.mp h)
  | iternext => exact .inr (.inl (op_of_mem_nextPlan h))
  | release =>
    rcases List.mem_cons.mp h with h | h
    · exact .inl h
    · exact .inr (.inr (op_of_mem_calls_release h))
  | forEach =>
    rcases List.mem_cons.mp h with h | h
    · exact .inl h
    · rcases List.mem_append.mp h with h | h
      · exact .inr (.inl (op_of_mem_nextPlan h))
      · exact .inr (.inr (op_of_mem_sourceRelease h))

/-- Besides steps and releases, a request is answered by one entry point of its own. -/
theorem seed_cases {request : Request} {seed : Entry} (h : seed ∈ request.seeds) :
    request = .iterator seed.kind ∧ seed.op = .getiter ∨
    (∃ args, request = .constructor seed.kind args ∧ seed.op = .construct args) ∨
    request = .loop seed.kind ∧ seed.op = .forEach ∨ seed.op = .iternext ∨ seed.op = .release := by
  cases request with
  | iterator kind =>
    simp only [Request.seeds_iterator, List.mem_cons] at h
    rcases h with rfl | rfl | h
    · exact .inl ⟨rfl, rfl⟩
    · exact .inr (.inr (.inr (.inl rfl)))
    · exact .inr (.inr (.inr (.inr (op_of_mem_sourceRelease h))))
  | constructor kind args =>
    simp only [Request.seeds, List.mem_cons] at h
    rcases h with rfl | rfl | h
    · exact .inr (.inl ⟨args, rfl, rfl⟩)
    · exact .inr (.inr (.inr (.inl rfl)))
    · split at h
      · rw [List.mem_singleton.mp h]
        exact .inr (.inr (.inr (.inr rfl)))
      · cases h
  | loop kind =>
    rw [List.mem_singleton.mp h]
    exact .inr (.inr (.inl ⟨rfl, rfl⟩))

/-- What is neither a step nor a release is called for by the request that it answers. -/
theorem mem_seeds_of_mem_plan {request : Request} {entry : Entry} (h : entry ∈ request.plan)
    (hnext : entry.op ≠ .iternext) (hrelease : entry.op ≠ .release) : entry ∈ request.seeds := by
  obtain ⟨seed, hseed, hentry⟩ := List.mem_flatMap.mp h
  rcases eq_or_op_of_mem_plan hentry with rfl | h | h
  · exact hseed
  · exact absurd h hnext
  · exact absurd h hrelease

/-- Only the request for an iterator makes its constructor from a value available. -/
theorem eq_iterator_of_mem_plan {request : Request} {kind : Kind}
    (h : ⟨.getiter, kind⟩ ∈ request.plan) : request = .iterator kind := by
  rcases seed_cases (mem_seeds_of_mem_plan h nofun nofun) with
    ⟨hr, -⟩ | ⟨_, -, ho⟩ | ⟨-, ho⟩ | ho | ho
  · exact hr
  all_goals cases ho

/-- Only the request for a constructor makes it available. -/
theorem eq_constructor_of_mem_plan {request : Request} {kind : Kind} {args : List Scalar}
    (h : ⟨.construct args, kind⟩ ∈ request.plan) : request = .constructor kind args := by
  rcases seed_cases (mem_seeds_of_mem_plan h nofun nofun) with
    ⟨-, ho⟩ | ⟨_, hr, ho⟩ | ⟨-, ho⟩ | ho | ho
  · cases ho
  · cases ho
    exact hr
  all_goals cases ho

end Kind

/-! ### The calls of a plan -/

namespace Kind

theorem depth_iteratorKind (kind : Kind) : kind.iteratorKind.depth = kind.depth := by
  cases kind <;> rfl

theorem depth_le_of_mem {source : Kind} : ∀ {sources : List Kind}, source ∈ sources →
    source.depth ≤ depthList sources
  | kind :: rest, hm => by
    rw [depthList]
    rcases List.mem_cons.mp hm with rfl | hm
    · exact Nat.le_max_left ..
    · exact Nat.le_trans (depth_le_of_mem hm) (Nat.le_max_right ..)

/-- What `getiter` returns for a right kind is its own iterator. -/
theorem iteratorKind_iteratorKind {kind : Kind} (h : kind.check = .ok ()) :
    kind.iteratorKind.iteratorKind = kind.iteratorKind := by
  cases kind with
  | external ext =>
    cases ext with
    | iterator => rfl
    | iterable name yields getiter made =>
      cases made with
      | iterator => rfl
      | iterable => cases h
  | enumerate => rfl
  | zip => rfl
  | generator => rfl

/-- What `getiter` returns for a right kind is an iterator. -/
theorem isIterator_iteratorKind {kind : Kind} (h : kind.check = .ok ()) :
    kind.iteratorKind.isIterator = true := by
  cases kind with
  | external ext =>
    cases ext with
    | iterator => rfl
    | iterable name yields getiter made =>
      cases made with
      | iterator => rfl
      | iterable => cases h
  | enumerate => rfl
  | zip => rfl
  | generator => rfl

/-- An iterator is its own iterator. -/
theorem iteratorKind_of_isIterator {kind : Kind} (h : kind.isIterator = true) :
    kind.iteratorKind = kind := by
  cases kind with
  | external ext =>
    cases ext with
    | iterator => rfl
    | iterable => cases h
  | enumerate => rfl
  | zip => rfl
  | generator => rfl

end Kind

namespace Entry

/-- The kind of the entry point is right, and only an iterator is advanced. -/
structure Proper (entry : Entry) : Prop where
  check : entry.kind.check = .ok ()
  isIterator : entry.op = .iternext → entry.kind.isIterator = true

/-- The entry point is another, or it calls it directly or not. -/
abbrev Reaches : Entry → Entry → Prop :=
  Relation.ReflTransGen fun caller callee => callee ∈ caller.calls

theorem mem_sourceRelease {source : Kind} {entry : Entry} (h : entry ∈ sourceRelease source) :
    source.releasesMade = true ∧ entry = ⟨.release, source.iteratorKind⟩ := by
  unfold sourceRelease at h
  split at h
  · next hr => exact ⟨hr, List.mem_singleton.mp h⟩
  · simp at h

/-- What an entry point calls advances or releases what `getiter` returns for a kind within its
own, and for a kind that nests less deep unless the entry point is a loop. -/
theorem of_mem_calls {entry callee : Entry} (h : callee ∈ entry.calls) :
    ∃ source : Kind, source.Within entry.kind ∧ source.depth < entry.depth ∧
      (callee = ⟨.iternext, source.iteratorKind⟩ ∨ callee = ⟨.release, source.iteratorKind⟩) := by
  obtain ⟨op, kind⟩ := entry
  cases op with
  | getiter => simp [calls] at h
  | construct args => simp [calls] at h
  | forEach =>
    -- a loop counts as one deeper than its kind, since it calls the routines of the kind itself
    refine ⟨kind, Kind.Within.refl _, Nat.lt_succ_self _, ?_⟩
    rcases List.mem_cons.mp h with h | h
    · exact .inl h
    · exact .inr (mem_sourceRelease h).2
  | iternext =>
    cases kind with
    | enumerate source =>
      exact ⟨source, Kind.within_enumerate source, Nat.lt_succ_self _, .inl (List.mem_singleton.mp h)⟩
    | zip sources =>
      obtain ⟨source, hm, rfl⟩ := List.mem_map.mp h
      exact ⟨source, Kind.within_zip hm, Nat.lt_succ_of_le (Kind.depth_le_of_mem hm), .inl rfl⟩
    | generator => simp [calls] at h
    | external => simp [calls] at h
  | release =>
    cases kind with
    | enumerate source =>
      exact ⟨source, Kind.within_enumerate source, Nat.lt_succ_self _, .inr (mem_sourceRelease h).2⟩
    | zip sources =>
      obtain ⟨source, hm, hs⟩ := List.mem_flatMap.mp h
      exact ⟨source, Kind.within_zip hm, Nat.lt_succ_of_le (Kind.depth_le_of_mem hm),
        .inr (mem_sourceRelease hs).2⟩
    | generator => simp [calls] at h
    | external => simp [calls] at h

/-- What an entry point calls is for a kind within its own. -/
theorem within_of_mem_calls {entry callee : Entry} (h : callee ∈ entry.calls) :
    callee.kind.Within entry.kind := by
  obtain ⟨source, hw, -, rfl | rfl⟩ := of_mem_calls h <;>
    exact (Kind.within_iteratorKind source).trans hw

/-- Calls nest less deep than their caller. -/
theorem depth_lt_of_mem_calls {entry callee : Entry} (h : callee ∈ entry.calls) :
    callee.depth < entry.depth := by
  obtain ⟨source, -, hd, rfl | rfl⟩ := of_mem_calls h <;>
    rwa [depth, Kind.depth_iteratorKind]

/-- Only a lowered body calls anything. -/
theorem provision_of_mem_calls {entry callee : Entry} (h : callee ∈ entry.calls) :
    entry.provision = .lowered := by
  obtain ⟨op, kind⟩ := entry
  cases op with
  | getiter => rfl
  | construct args => simp [calls] at h
  | forEach => rfl
  | iternext => cases kind <;> first | rfl | simp [calls] at h
  | release => cases kind <;> first | rfl | simp [calls] at h

theorem Proper.of_mem_calls {entry callee : Entry} (h : entry.Proper)
    (hc : callee ∈ entry.calls) : callee.Proper := by
  obtain ⟨source, hw, -, hcallee⟩ := Entry.of_mem_calls hc
  have hcheck : source.check = .ok () := hw.check h.check
  rcases hcallee with rfl | rfl
  · exact ⟨(Kind.within_iteratorKind source).check hcheck,
      fun _ => Kind.isIterator_iteratorKind hcheck⟩
  · exact ⟨(Kind.within_iteratorKind source).check hcheck, fun h => by cases h⟩

theorem nextPlan_iteratorKind {kind : Kind} (h : kind.check = .ok ()) :
    nextPlan kind.iteratorKind = nextPlan kind := by
  cases kind with
  | external ext =>
    have hmade := Kind.iteratorKind_iteratorKind h
    simp only [Kind.iteratorKind, Kind.external.injEq] at hmade
    simp [Kind.iteratorKind, nextPlan, hmade]
  | enumerate => rfl
  | zip => rfl
  | generator => rfl

theorem nextPlans_eq : ∀ {sources : List Kind}, Kind.checkList sources = .ok () →
    nextPlans sources =
      (sources.map fun source => (⟨.iternext, source.iteratorKind⟩ : Entry)).flatMap plan
  | [], _ => rfl
  | kind :: rest, h => by
    have hk : kind.check = .ok () := Kind.check_of_mem (List.mem_cons_self ..) h
    have hr : Kind.checkList rest = .ok () := by rwa [Kind.checkList, hk] at h
    rw [nextPlans, nextPlans_eq hr, List.map_cons, List.flatMap_cons]
    simp only [plan, nextPlan_iteratorKind hk]

/-- What is released for a source calls nothing: only what an iterable makes is released. -/
theorem flatMap_plan_sourceRelease {source : Kind} (h : source.check = .ok ()) :
    (sourceRelease source).flatMap plan = sourceRelease source := by
  unfold sourceRelease
  split
  · next hr =>
    cases source with
    | external ext => rfl
    | enumerate => simp [Kind.releasesMade, Kind.ownership, Kind.isIterator] at hr
    | zip => simp [Kind.releasesMade, Kind.ownership, Kind.isIterator] at hr
    | generator => simp [Kind.releasesMade, Kind.ownership, Kind.isIterator] at hr
  · rfl

/-- **The plan of an entry point** is itself, and then the plans of what it calls. -/
theorem Proper.plan_eq {entry : Entry} (h : entry.Proper) :
    entry.plan = entry :: entry.calls.flatMap plan := by
  obtain ⟨op, kind⟩ := entry
  have hcheck : kind.check = .ok () := h.check
  cases op with
  | getiter => rfl
  | construct args => rfl
  | forEach =>
    simp only [plan, calls, List.flatMap_cons, flatMap_plan_sourceRelease hcheck,
      nextPlan_iteratorKind hcheck]
  | iternext =>
    cases kind with
    | enumerate source =>
      have hsource : source.check = .ok () := hcheck
      simp only [plan, calls, nextPlan, List.flatMap_cons, List.flatMap_nil, List.append_nil,
        nextPlan_iteratorKind hsource]
    | zip sources =>
      have hsources : Kind.checkList sources = .ok () := hcheck
      simp only [plan, calls, nextPlan, nextPlans_eq hsources]
    | generator => rfl
    | external ext =>
      -- a linked iterator is its own iterator, so its plan is the entry point alone
      have hmade := Kind.iteratorKind_of_isIterator (h.isIterator rfl)
      simp only [Kind.iteratorKind, Kind.external.injEq] at hmade
      simp [plan, calls, nextPlan, hmade]
  | release =>
    cases kind with
    | enumerate source =>
      have hsource : source.check = .ok () := hcheck
      simp only [plan, calls, flatMap_plan_sourceRelease hsource]
    | zip sources =>
      have hall : ∀ source ∈ sources, (sourceRelease source).flatMap plan = sourceRelease source :=
        fun source hm => flatMap_plan_sourceRelease (Kind.check_of_mem hm hcheck)
      simp only [plan, calls, List.flatMap_assoc]
      rw [List.flatMap_congr hall]
    | generator => rfl
    | external => rfl

/-- **The plan of an entry point** holds exactly what the entry point reaches. -/
theorem Proper.mem_plan_iff {entry other : Entry} (h : entry.Proper) :
    other ∈ entry.plan ↔ entry.Reaches other := by
  -- by induction on how deep the calls nest
  induction hd : entry.depth using Nat.strongRecOn generalizing entry with
  | ind depth ih =>
    subst hd
    rw [h.plan_eq, List.mem_cons, List.mem_flatMap, Reaches, Relation.ReflTransGen.cases_head_iff]
    refine or_congr eq_comm (exists_congr fun callee => and_congr_right fun hc => ?_)
    exact ih _ (depth_lt_of_mem_calls hc) (h.of_mem_calls hc) rfl

theorem Proper.self_mem_plan {entry : Entry} (h : entry.Proper) : entry ∈ entry.plan := by
  rw [h.plan_eq]
  exact List.mem_cons_self ..

/-- The plan of an entry point has with each entry point also its plan. -/
theorem Proper.of_mem_plan {entry other : Entry} (h : entry.Proper) (ho : other ∈ entry.plan) :
    other.Proper := by
  rw [h.mem_plan_iff] at ho
  induction ho with
  | refl => exact h
  | tail _ hc ih => exact ih.of_mem_calls hc

theorem Proper.plan_subset {entry other last : Entry} (h : entry.Proper) (ho : other ∈ entry.plan)
    (hl : last ∈ other.plan) : last ∈ entry.plan := by
  have hother := h.of_mem_plan ho
  rw [h.mem_plan_iff] at ho ⊢
  exact ho.trans (hother.mem_plan_iff.mp hl)

end Entry

/-- What answers a request for a right kind is proper. -/
theorem Request.proper_of_mem_seeds {request : Request} (hk : request.kind.check = .ok ())
    (ha : request.checkArgs = .ok ()) {seed : Entry} (h : seed ∈ request.seeds) : seed.Proper := by
  cases request with
  | iterator kind =>
    rw [Request.seeds_iterator] at h
    rcases List.mem_cons.mp h with rfl | h
    · exact ⟨hk, fun h => by cases h⟩
    rcases List.mem_cons.mp h with rfl | h
    · exact ⟨(Kind.within_iteratorKind kind).check hk, fun _ => Kind.isIterator_iteratorKind hk⟩
    · rw [(Entry.mem_sourceRelease h).2]
      exact ⟨(Kind.within_iteratorKind kind).check hk, fun h => by cases h⟩
  | constructor kind args =>
    rcases List.mem_cons.mp h with rfl | h
    · exact ⟨hk, fun h => by cases h⟩
    rcases List.mem_cons.mp h with rfl | h
    · refine ⟨hk, fun _ => ?_⟩
      -- only combinators have constructors
      cases kind with
      | enumerate => rfl
      | zip => rfl
      | generator => cases ha
      | external => cases ha
    · split at h
      · rw [List.mem_singleton.mp h]
        exact ⟨hk, fun h => by cases h⟩
      · simp at h
  | loop kind =>
    rw [List.mem_singleton.mp h]
    exact ⟨hk, fun h => by cases h⟩

/-- The plan of a request has with each entry point also its plan. -/
theorem Request.plan_subset {request : Request} (hk : request.kind.check = .ok ())
    (ha : request.checkArgs = .ok ()) {entry other : Entry} (he : entry ∈ request.plan)
    (ho : other ∈ entry.plan) : other ∈ request.plan := by
  obtain ⟨seed, hseed, hentry⟩ := List.mem_flatMap.mp he
  exact List.mem_flatMap.mpr
    ⟨seed, hseed, (Request.proper_of_mem_seeds hk ha hseed).plan_subset hentry ho⟩

theorem Request.proper_of_mem_plan {request : Request} (hk : request.kind.check = .ok ())
    (ha : request.checkArgs = .ok ()) {entry : Entry} (he : entry ∈ request.plan) :
    entry.Proper := by
  obtain ⟨seed, hseed, hentry⟩ := List.mem_flatMap.mp he
  exact (Request.proper_of_mem_seeds hk ha hseed).of_mem_plan hentry

end PullIter
