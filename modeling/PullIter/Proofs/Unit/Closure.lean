import PullIter.Proofs.Unit.Lowered

/-!
# The entry points that requests make available

Each request is answered by a few entry points, and a lowered body calls others.  What a finished
unit hands out is the least set that holds the former and is closed under the latter: requiring
an entry point passes over everything that is there already, and misses nothing.  So the set
depends on which requests were made and neither on their order nor on their number.

The set is told here request by request and body by body, and not by the lists that the unit goes
through (`Request.seeds`, `Entry.calls`).

## Main definitions

* `Entry.Calls` — what the body of an entry point calls.
* `Needed` — the least set of entry points that requests need.
* `Compiled.ProvidesExactly` — a unit that hands out some entry points and no others, lowered
  once or bound to their symbols.

## Main results

* `Entry.mem_calls_iff`, `Needed.of_mem_seeds`, `Needed.least` — the lists hold what is told here.
* `exists_mem_plan_iff_needed` — the plans of right requests hold what the requests need.
* `Finished.isAvailable_iff_needed` — what is available is what is needed.
* `Finished.providesExactly` — how it is provided, whatever the order of the requests.
-/

namespace PullIter

/-! ### What bodies call -/

namespace Entry

/-- The body of the first entry point calls the second.  A loop advances and releases the iterator
that it has made; a combinator advances the iterators of its sources, and it releases those of them
that it owns and that can be released. -/
inductive Calls : Entry → Entry → Prop
  | loopNext (kind : Kind) : Calls ⟨.forEach, kind⟩ ⟨.iternext, kind.iteratorKind⟩
  | loopRelease {kind : Kind} (owned : kind.ownership = .owned)
      (releasable : kind.iteratorKind.needsRelease = true) :
    Calls ⟨.forEach, kind⟩ ⟨.release, kind.iteratorKind⟩
  | enumerateNext (source : Kind) :
    Calls ⟨.iternext, .enumerate source⟩ ⟨.iternext, source.iteratorKind⟩
  | enumerateRelease {source : Kind} (owned : source.ownership = .owned)
      (releasable : source.iteratorKind.needsRelease = true) :
    Calls ⟨.release, .enumerate source⟩ ⟨.release, source.iteratorKind⟩
  | zipNext {sources : List Kind} {source : Kind} (mem : source ∈ sources) :
    Calls ⟨.iternext, .zip sources⟩ ⟨.iternext, source.iteratorKind⟩
  | zipRelease {sources : List Kind} {source : Kind} (mem : source ∈ sources)
      (owned : source.ownership = .owned) (releasable : source.iteratorKind.needsRelease = true) :
    Calls ⟨.release, .zip sources⟩ ⟨.release, source.iteratorKind⟩

theorem mem_sourceRelease_iff {source : Kind} {callee : Entry} : callee ∈ sourceRelease source ↔
    (source.ownership = .owned ∧ source.iteratorKind.needsRelease = true) ∧
      callee = ⟨.release, source.iteratorKind⟩ := by
  rw [sourceRelease, Kind.releasesMade, List.mem_ite_nil_right, List.mem_singleton,
    Bool.and_eq_true, decide_eq_true_eq]

/-- The list of the calls of an entry point holds what its body calls. -/
theorem mem_calls_iff {caller callee : Entry} : callee ∈ caller.calls ↔ caller.Calls callee := by
  constructor
  · intro h
    obtain ⟨op, kind⟩ := caller
    cases op with
    | getiter => cases h
    | construct args => cases h
    | forEach =>
      rcases List.mem_cons.mp h with rfl | h
      · exact .loopNext kind
      · obtain ⟨⟨owned, releasable⟩, rfl⟩ := mem_sourceRelease_iff.mp h
        exact .loopRelease owned releasable
    | iternext =>
      cases kind with
      | enumerate source =>
        obtain rfl := List.mem_singleton.mp h
        exact .enumerateNext source
      | zip sources =>
        obtain ⟨source, hm, rfl⟩ := List.mem_map.mp h
        exact .zipNext hm
      | generator => cases h
      | external => cases h
    | release =>
      cases kind with
      | enumerate source =>
        obtain ⟨⟨owned, releasable⟩, rfl⟩ := mem_sourceRelease_iff.mp h
        exact .enumerateRelease owned releasable
      | zip sources =>
        obtain ⟨source, hm, h⟩ := List.mem_flatMap.mp h
        obtain ⟨⟨owned, releasable⟩, rfl⟩ := mem_sourceRelease_iff.mp h
        exact .zipRelease hm owned releasable
      | generator => cases h
      | external => cases h
  · intro h
    cases h with
    | loopNext kind => exact List.mem_cons_self ..
    | loopRelease owned releasable =>
      exact List.mem_cons_of_mem _ (mem_sourceRelease_iff.mpr ⟨⟨owned, releasable⟩, rfl⟩)
    | enumerateNext source => exact List.mem_singleton_self _
    | enumerateRelease owned releasable => exact mem_sourceRelease_iff.mpr ⟨⟨owned, releasable⟩, rfl⟩
    | zipNext mem => exact List.mem_map.mpr ⟨_, mem, rfl⟩
    | zipRelease mem owned releasable =>
      exact List.mem_flatMap.mpr ⟨_, mem, mem_sourceRelease_iff.mpr ⟨⟨owned, releasable⟩, rfl⟩⟩

end Entry

/-! ### What requests need -/

/-- The least set of entry points that holds what answers some requests, and what its bodies
call. -/
inductive Needed (requests : List Request) : Entry → Prop
  /-- An iterator is made, -/
  | made {kind : Kind} (requested : .iterator kind ∈ requests) : Needed requests ⟨.getiter, kind⟩
  /-- advanced, -/
  | advanced {kind : Kind} (requested : .iterator kind ∈ requests) :
    Needed requests ⟨.iternext, kind.iteratorKind⟩
  /-- and released, if it is owned and can be released. -/
  | released {kind : Kind} (requested : .iterator kind ∈ requests)
      (owned : kind.ownership = .owned) (releasable : kind.iteratorKind.needsRelease = true) :
    Needed requests ⟨.release, kind.iteratorKind⟩
  /-- A combinator is made of its arguments, -/
  | constructed {kind : Kind} {args : List Scalar} (requested : .constructor kind args ∈ requests) :
    Needed requests ⟨.construct args, kind⟩
  /-- advanced, -/
  | constructedNext {kind : Kind} {args : List Scalar}
      (requested : .constructor kind args ∈ requests) : Needed requests ⟨.iternext, kind⟩
  /-- and released. -/
  | constructedRelease {kind : Kind} {args : List Scalar}
      (requested : .constructor kind args ∈ requests) : Needed requests ⟨.release, kind⟩
  /-- A loop is run. -/
  | loop {kind : Kind} (requested : .loop kind ∈ requests) : Needed requests ⟨.forEach, kind⟩
  /-- What a lowered body calls is needed if the body is. -/
  | call {caller callee : Entry} (needed : Needed requests caller)
      (lowered : caller.provision = .lowered) (calls : caller.Calls callee) : Needed requests callee

/-- A constructor that takes its arguments makes something that is released. -/
theorem Kind.needsRelease_of_checkConstructor {kind : Kind} {args : List Scalar}
    (h : kind.checkConstructor args = .ok ()) : kind.needsRelease = true := by
  cases kind with
  | enumerate => rfl
  | zip => rfl
  | generator => cases h
  | external => cases h

namespace Needed

/-- The entry points that answer a request are needed. -/
theorem of_mem_seeds {requests : List Request} {request : Request} {entry : Entry}
    (hr : request ∈ requests) (h : entry ∈ request.seeds) : Needed requests entry := by
  cases request with
  | iterator kind =>
    rw [Request.seeds_iterator] at h
    rcases List.mem_cons.mp h with rfl | h
    · exact .made hr
    rcases List.mem_cons.mp h with rfl | h
    · exact .advanced hr
    · obtain ⟨⟨owned, releasable⟩, rfl⟩ := Entry.mem_sourceRelease_iff.mp h
      exact .released hr owned releasable
  | constructor kind args =>
    rcases List.mem_cons.mp h with rfl | h
    · exact .constructed hr
    rcases List.mem_cons.mp h with rfl | h
    · exact .constructedNext hr
    · split at h
      · obtain rfl := List.mem_singleton.mp h
        exact .constructedRelease hr
      · cases h
  | loop kind =>
    obtain rfl := List.mem_singleton.mp h
    exact .loop hr

/-- Every set that holds the entry points that answer right requests, and what is listed as called
by those it holds, holds what is needed. -/
theorem least {requests : List Request} (held : Entry → Prop)
    (hargs : ∀ request ∈ requests, request.checkArgs = .ok ())
    (hseed : ∀ request ∈ requests, ∀ entry ∈ request.seeds, held entry)
    (hcall : ∀ caller, held caller → caller.provision = .lowered →
      ∀ callee ∈ caller.calls, held callee) {entry : Entry} (h : Needed requests entry) :
    held entry := by
  induction h with
  | made hr => exact hseed _ hr _ (List.mem_cons_self ..)
  | advanced hr => exact hseed _ hr _ (List.mem_cons_of_mem _ (List.mem_cons_self ..))
  | released hr owned releasable =>
    refine hseed _ hr _ ?_
    rw [Request.seeds_iterator]
    exact List.mem_cons_of_mem _ (List.mem_cons_of_mem _
      (Entry.mem_sourceRelease_iff.mpr ⟨⟨owned, releasable⟩, rfl⟩))
  | constructed hr => exact hseed _ hr _ (List.mem_cons_self ..)
  | constructedNext hr => exact hseed _ hr _ (List.mem_cons_of_mem _ (List.mem_cons_self ..))
  | constructedRelease hr =>
    refine hseed _ hr _ ?_
    rw [Request.seeds, if_pos (Kind.needsRelease_of_checkConstructor (hargs _ hr))]
    exact List.mem_cons_of_mem _ (List.mem_cons_of_mem _ (List.mem_singleton_self _))
  | loop hr => exact hseed _ hr _ (List.mem_singleton_self _)
  | call _ hl hc ih => exact hcall _ ih hl _ (Entry.mem_calls_iff.mpr hc)

/-- What is needed does not depend on the order of the requests, and on no repetition. -/
theorem mono {requests others : List Request} (hsub : ∀ request ∈ requests, request ∈ others)
    {entry : Entry} (h : Needed requests entry) : Needed others entry := by
  induction h with
  | made hr => exact .made (hsub _ hr)
  | advanced hr => exact .advanced (hsub _ hr)
  | released hr owned releasable => exact .released (hsub _ hr) owned releasable
  | constructed hr => exact .constructed (hsub _ hr)
  | constructedNext hr => exact .constructedNext (hsub _ hr)
  | constructedRelease hr => exact .constructedRelease (hsub _ hr)
  | loop hr => exact .loop (hsub _ hr)
  | call _ hl hc ih => exact .call ih hl hc

/-- What a needed entry point reaches is needed. -/
theorem of_reaches {requests : List Request} {entry other : Entry} (h : Needed requests entry)
    (hr : entry.Reaches other) : Needed requests other := by
  induction hr with
  | refl => exact h
  | tail _ hc ih => exact .call ih (Entry.provision_of_mem_calls hc) (Entry.mem_calls_iff.mp hc)

end Needed

/-- The plans of right requests hold exactly what the requests need. -/
theorem exists_mem_plan_iff_needed {requests : List Request}
    (hk : ∀ request ∈ requests, request.kind.check = .ok ())
    (ha : ∀ request ∈ requests, request.checkArgs = .ok ()) {entry : Entry} :
    (∃ request ∈ requests, entry ∈ request.plan) ↔ Needed requests entry := by
  constructor
  · rintro ⟨request, hr, hp⟩
    obtain ⟨seed, hseed, hentry⟩ := List.mem_flatMap.mp hp
    have hproper := Request.proper_of_mem_seeds (hk request hr) (ha request hr) hseed
    exact (Needed.of_mem_seeds hr hseed).of_reaches (hproper.mem_plan_iff.mp hentry)
  · intro h
    refine h.least (fun entry => ∃ request ∈ requests, entry ∈ request.plan) ha ?_ ?_
    · intro request hr seed hs
      have hproper := Request.proper_of_mem_seeds (hk request hr) (ha request hr) hs
      exact ⟨request, hr, List.mem_flatMap.mpr ⟨seed, hs, hproper.self_mem_plan⟩⟩
    · rintro caller ⟨request, hr, hp⟩ - callee hc
      have hproper := Request.proper_of_mem_plan (hk request hr) (ha request hr) hp
      refine ⟨request, hr, Request.plan_subset (hk request hr) (ha request hr) hp ?_⟩
      exact hproper.mem_plan_iff.mpr (.single hc)

namespace Compiled

/-- The unit hands out these entry points and no others.  Each that is lowered is lowered once,
nothing else is, and the entry points of external iterators are bound to their symbols. -/
structure ProvidesExactly (unit : Compiled) (needed : Entry → Prop) : Prop where
  available : ∀ entry, unit.isAvailable entry = true ↔ needed entry
  loweredOnce : ∀ {entry}, needed entry → entry.provision = .lowered →
    unit.LoweredOnce entry ∧ unit.entryCode entry = .ok (.body entry)
  lowered : ∀ {entry}, entry ∈ unit.registry.lowered.map Prod.fst →
    needed entry ∧ entry.provision = .lowered
  next : ∀ {name yields next release},
    needed ⟨.iternext, .external (.iterator name yields next release)⟩ →
      unit.BoundTo ⟨.iternext, .external (.iterator name yields next release)⟩ next
  release : ∀ {name yields next release},
    needed ⟨.release, .external (.iterator name yields next (some release))⟩ →
      unit.BoundTo ⟨.release, .external (.iterator name yields next (some release))⟩ release

variable {unit : Compiled} {options : Options} {externals : List (String × Provider)}
  {requests : List Request}

theorem isAvailable_iff {entry : Entry} :
    unit.isAvailable entry = true ↔ ∃ code, unit.entryCode entry = .ok code := by
  unfold isAvailable
  cases unit.entryCode entry with
  | ok code => exact ⟨fun _ => ⟨code, rfl⟩, fun _ => rfl⟩
  | error e => exact ⟨fun h => (by cases h), fun ⟨_, h⟩ => (by cases h)⟩

namespace Finished

/-- **What is available** is what is needed. -/
theorem isAvailable_iff_needed (h : unit.Finished options externals requests) (entry : Entry) :
    unit.isAvailable entry = true ↔ Needed requests entry := by
  obtain ⟨compiler, hs, -, -⟩ := h.sound
  rw [isAvailable_iff, ← exists_mem_plan_iff_needed (fun _ hr => hs.checked hr)
    (fun _ hr => hs.arguments hr)]
  constructor
  · rintro ⟨code, hc⟩
    exact h.planned hc
  · rintro ⟨request, hr, hp⟩
    exact h.available hr hp

theorem exists_code_of_needed (h : unit.Finished options externals requests) {entry : Entry}
    (hn : Needed requests entry) : ∃ code, unit.entryCode entry = .ok code :=
  isAvailable_iff.mp ((h.isAvailable_iff_needed entry).mpr hn)

theorem available_of_mem_lowered (h : unit.Finished options externals requests) {entry : Entry}
    (hm : entry ∈ unit.registry.lowered.map Prod.fst) :
    unit.isAvailable entry = true ∧ entry.provision = .lowered := by
  obtain ⟨⟨found, id⟩, hbody, rfl⟩ := List.mem_map.mp hm
  obtain ⟨hl, key, hk, -⟩ := h.consistent.mem_lowered_iff.mp hbody
  obtain ⟨compiler, hs, hr, -⟩ := h.sound
  obtain ⟨request, hreq, hp⟩ := hs.planned (hr ▸ hk)
  exact ⟨isAvailable_iff.mpr (h.available hreq hp), hl⟩

/-- **A finished unit** hands out the least set of entry points that holds what answers its
requests and is closed under the calls of its lowered bodies.  Each of them is lowered once, or is
the symbol of an external iterator.  Every other unit that was finished after the same requests,
in whatever order and however often, hands out the same entry points. -/
theorem providesExactly (h : unit.Finished options externals requests) :
    unit.ProvidesExactly (Needed requests) ∧
      ∀ {other : Compiled} {options' : Options} {externals' : List (String × Provider)}
        {requests' : List Request}, other.Finished options' externals' requests' →
        (∀ request, request ∈ requests' ↔ request ∈ requests) →
        ∀ entry, other.isAvailable entry = unit.isAvailable entry := by
  refine ⟨⟨h.isAvailable_iff_needed, ?_, ?_, ?_, ?_⟩, ?_⟩
  · intro entry hn hl
    obtain ⟨code, hc⟩ := h.exists_code_of_needed hn
    rcases h.provides hc with ⟨-, rfl⟩ | ⟨symbol, provider, hi, -⟩
    · exact ⟨h.loweredOnce hc hl, hc⟩
    · rw [hl] at hi
      cases hi
  · intro entry hm
    obtain ⟨ha, hl⟩ := h.available_of_mem_lowered hm
    exact ⟨(h.isAvailable_iff_needed entry).mp ha, hl⟩
  · intro name yields next release hn
    obtain ⟨code, hc⟩ := h.exists_code_of_needed hn
    exact h.boundTo hc rfl
  · intro name yields next release hn
    obtain ⟨code, hc⟩ := h.exists_code_of_needed hn
    exact h.boundTo hc rfl
  · intro other options' externals' requests' h' hsame entry
    rw [Bool.eq_iff_iff, h.isAvailable_iff_needed, h'.isAvailable_iff_needed]
    exact ⟨Needed.mono fun request => (hsame request).mp,
      Needed.mono fun request => (hsame request).mpr⟩

/-- Two units after the same requests in another order, one of them made twice.  Both make the zip,
advance its counted array, and release the array of the loop; neither makes a range or releases one,
which is its own iterator. -/
theorem providesExactly_reordered : ∃ unit other : Compiled,
    unit.Finished .debug [] [.iterator (.zip [.range, .enumerate .array]), .loop .array] ∧
      other.Finished .debug []
        [.loop .array, .iterator (.zip [.range, .enumerate .array]), .loop .array] ∧
      unit.ProvidesExactly (Needed [.iterator (.zip [.range, .enumerate .array]), .loop .array]) ∧
      (∀ entry, other.isAvailable entry = unit.isAvailable entry) ∧
      (∀ entry ∈ [(⟨.getiter, .zip [.range, .enumerate .array]⟩ : Entry),
        ⟨.iternext, .zip [.range, .enumerate .array]⟩, ⟨.iternext, .range⟩,
        ⟨.iternext, .enumerate .array⟩, ⟨.iternext, Kind.array.iteratorKind⟩,
        ⟨.forEach, .array⟩, ⟨.release, Kind.array.iteratorKind⟩],
          unit.isAvailable entry = true ∧ other.isAvailable entry = true) ∧
      ∀ entry ∈ [(⟨.getiter, .range⟩ : Entry), ⟨.release, .range⟩,
        ⟨.release, .zip [.range, .enumerate .array]⟩],
          unit.isAvailable entry = false ∧ other.isAvailable entry = false := by
  obtain ⟨unit, h⟩ : ∃ unit : Compiled, unit.Finished .debug []
      [.iterator (.zip [.range, .enumerate .array]), .loop .array] := ⟨_, rfl⟩
  obtain ⟨other, h'⟩ : ∃ other : Compiled, other.Finished .debug []
      [.loop .array, .iterator (.zip [.range, .enumerate .array]), .loop .array] := ⟨_, rfl⟩
  have hsame := h.providesExactly.2 h' fun request => by
    simp only [List.mem_cons, List.not_mem_nil, or_false]
    exact ⟨fun hm => hm.elim .inr id, .inr⟩
  obtain ⟨hexact, -⟩ := h.providesExactly
  have hzip : Needed [.iterator (.zip [.range, .enumerate .array]), .loop .array]
    ⟨.iternext, .zip [.range, .enumerate .array]⟩ := .advanced (List.mem_cons_self ..)
  have hcounted := hzip.call rfl (.zipNext (List.mem_cons_of_mem _ (List.mem_singleton_self _)))
  have hloop : Needed [.iterator (.zip [.range, .enumerate .array]), .loop .array]
    ⟨.forEach, .array⟩ := .loop (List.mem_cons_of_mem _ (List.mem_singleton_self _))
  refine ⟨unit, other, h, h', hexact, hsame, fun entry hm => ?_, fun entry hm => ?_⟩
  · rw [hsame, and_self, hexact.available]
    simp only [List.mem_cons, List.not_mem_nil, or_false] at hm
    obtain rfl | rfl | rfl | rfl | rfl | rfl | rfl := hm
    · exact .made (List.mem_cons_self ..)
    · exact hzip
    · exact hzip.call rfl (.zipNext (List.mem_cons_self ..))
    · exact hcounted
    · exact hcounted.call rfl (.enumerateNext .array)
    · exact hloop
    · exact hloop.call rfl (.loopRelease rfl rfl)
  · -- what is not in the plan of a request is not needed
    rw [hsame, and_self, ← Bool.not_eq_true, hexact.available,
      ← exists_mem_plan_iff_needed (by decide) (by decide)]
    revert entry
    decide

end Finished

end Compiled

end PullIter
