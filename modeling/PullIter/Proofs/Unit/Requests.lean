import PullIter.Proofs.Unit.Require

/-!
# What requests register

Each request that is met makes its plan available and imports the symbols of its kind, and it
takes nothing away.  A unit that has not failed has therefore met all its requests.

## Main definitions

* `Compiler.requestAll` — some requests in order, whatever the answers.
* `Compiler.Sound` — what is available after some requests that were met.
* `Compiler.Meets` — a unit meets some requests, one after the other.

## Main results

* `Sound.attempt_eq_ok`, `Sound.attempt_of_ensureAll` — in a sound unit a request that is met
  imports its symbols and makes its plan available, and nothing else keeps it from being met.
* `Sound.attempt` — what one request adds.
* `requestAll_induction` — what a request that is met keeps holds of every unit that has not failed.
* `sound_requestAll` — what a unit has registered that has not failed.
* `Sound.meets_iff` — a unit fails exactly if it does not meet a request.
-/

namespace PullIter

namespace Compiler

/-- Some requests in order, whatever they are answered. -/
def requestAll (unit : Compiler) (requests : List Request) : Compiler :=
  requests.foldl (fun unit request => (unit.request request).2) unit

/-- What is available after some requests that were met. -/
structure Sound (externals : List (String × Provider)) (requests : List Request)
    (unit : Compiler) : Prop where
  linkable : unit.decls.linkable = externals.reverse ++ Provider.ofIntrinsics
  registry : unit.registry.Sound
  linked : ∀ {symbol key}, unit.registry.importedKey? symbol = some key →
    unit.decls.hasSymbol symbol = true
  planned : ∀ {entry key}, unit.registry.entryKey? entry = some key →
    ∃ request ∈ requests, entry ∈ request.plan
  available : ∀ {request}, request ∈ requests → ∀ {entry}, entry ∈ request.plan →
    (unit.registry.entryKey? entry).isSome
  imported : ∀ {request}, request ∈ requests → ∀ {symbol}, symbol ∈ request.kind.symbols →
    (unit.registry.importedKey? symbol).isSome
  checked : ∀ {request}, request ∈ requests → request.kind.check = .ok ()
  arguments : ∀ {request}, request ∈ requests → request.checkArgs = .ok ()

/-- Every available entry point of a sound unit has its plan available. -/
theorem Sound.settled {externals : List (String × Provider)} {requests : List Request}
    {unit : Compiler} (h : Sound externals requests unit) : unit.Settled fun _ => False := by
  intro entry hs _ other ho
  obtain ⟨key, hk⟩ := Option.isSome_iff_exists.mp hs
  obtain ⟨request, hr, hp⟩ := h.planned hk
  exact h.available hr (Request.plan_subset (h.checked hr) (h.arguments hr) hp ho)

/-- The registry stays sound and linked while the symbols of a kind are imported, and no entry point
is added. -/
theorem Sound.importUses {externals : List (String × Provider)} {requests : List Request}
    {unit mid : Compiler} {kind : Kind} (h : Sound externals requests unit)
    (hsymbols : ∀ symbol ∈ kind.symbols, unit.decls.hasSymbol symbol = true)
    (huses : unit.importUses kind.symbolUses = .ok mid) : mid.registry.Sound ∧
      (∀ {symbol key}, mid.registry.importedKey? symbol = some key →
        mid.decls.hasSymbol symbol = true) ∧
      ∀ entry, mid.registry.entryKey? entry = unit.registry.entryKey? entry := by
  refine importUses_registry huses h.registry h.linked ?_
  rw [Kind.map_fst_symbolUses]
  exact hsymbols

/-- Once the symbols of a request are imported, requiring its entry points makes its plan
available. -/
theorem Sound.foldlM_require {externals : List (String × Provider)} {requests : List Request}
    {unit mid : Compiler} {request : Request} (h : Sound externals requests unit)
    (hcheck : request.kind.check = .ok ()) (hargs : request.checkArgs = .ok ())
    (hsymbols : ∀ symbol ∈ request.kind.symbols, unit.decls.hasSymbol symbol = true)
    (huses : unit.importUses request.kind.symbolUses = .ok mid) :
    request.seeds.foldlM Compiler.require mid = mid.ensureAll request.plan := by
  obtain ⟨-, -, hentry⟩ := h.importUses hsymbols huses
  -- importing symbols makes no entry point available, so the unit stays settled
  have hmid : mid.Settled fun _ => False := by
    intro entry hs hn other ho
    rw [hentry] at hs ⊢
    exact h.settled entry hs hn other ho
  refine foldlM_eq_ensureAll (fun seed hs => Request.proper_of_mem_seeds hcheck hargs hs) ?_ hmid
  intro seed hs unit hu
  exact require_eq_ensureAll (Request.proper_of_mem_seeds hcheck hargs hs)
    (fun _ _ => not_false) hu

/-- **A request that is met in a sound unit** imports the symbols of its kind, and then makes its
plan available. -/
theorem Sound.attempt_eq_ok {externals : List (String × Provider)} {requests : List Request}
    {unit after : Compiler} {request : Request} (h : Sound externals requests unit)
    (ha : unit.attempt request = .ok after) :
    request.kind.check = .ok () ∧ request.checkArgs = .ok () ∧
      (∀ symbol ∈ request.kind.symbols, unit.decls.hasSymbol symbol = true) ∧
      ∃ mid, unit.importUses request.kind.symbolUses = .ok mid ∧
        mid.ensureAll request.plan = .ok after := by
  unfold Compiler.attempt at ha
  split at ha
  · cases ha
  · next mid hp =>
    split at ha
    · cases ha
    · next hargs =>
      obtain ⟨hcheck, hsymbols, huses⟩ := prepare_eq_ok hp
      refine ⟨hcheck, hargs, hsymbols, mid, huses, ?_⟩
      rwa [← h.foldlM_require hcheck hargs hsymbols huses]

/-- A request that passes the checks is met in a sound unit, if its symbols can be imported and its
plan can be made available. -/
theorem Sound.attempt_of_ensureAll {externals : List (String × Provider)} {requests : List Request}
    {unit mid after : Compiler} {request : Request} (h : Sound externals requests unit)
    (hcheck : request.kind.check = .ok ()) (hargs : request.checkArgs = .ok ())
    (hsymbols : ∀ symbol ∈ request.kind.symbols, unit.decls.hasSymbol symbol = true)
    (huses : unit.importUses request.kind.symbolUses = .ok mid)
    (ha : mid.ensureAll request.plan = .ok after) : unit.attempt request = .ok after := by
  have hprepare := prepare_of_importUses hcheck hsymbols huses
  simp only [Compiler.attempt, hprepare, hargs]
  rw [h.foldlM_require hcheck hargs hsymbols huses, ha]

/-- A request that is met adds its plan to what is available. -/
theorem Sound.attempt {externals : List (String × Provider)} {requests : List Request}
    {unit after : Compiler} {request : Request} (h : Sound externals requests unit)
    (ha : unit.attempt request = .ok after) :
    Sound externals (requests ++ [request]) after ∧ after.failure = unit.failure := by
  obtain ⟨hcheck, harguments, hsymbols, mid, huses, ha⟩ := h.attempt_eq_ok ha
  have hgrow := grows_importUses huses
  obtain ⟨hreg, hlinked, hentry⟩ := h.importUses hsymbols huses
  have hadds := addsAll_ensureAll ha
  have hall := hgrow.trans hadds.grows
  refine ⟨⟨hall.linkable.trans h.linkable, hadds.sound hreg, ?_, ?_, ?_, ?_, ?_, ?_⟩,
    hall.failure⟩
  · -- symbols that are filed are linked
    intro symbol key hk
    rw [hadds.symbol] at hk
    rw [hadds.grows.hasSymbol]
    exact hlinked hk
  · -- what is filed is in the plan of a request
    intro entry key hk
    by_cases he : entry ∈ request.plan
    · exact ⟨request, by simp, he⟩
    · rw [hadds.other he, hentry] at hk
      obtain ⟨r, hr, hplan⟩ := h.planned hk
      exact ⟨r, List.mem_append_left _ hr, hplan⟩
  · -- what is planned is available
    intro r hr entry he
    rcases List.mem_append.mp hr with hr | hr
    · exact hall.entry (h.available hr he)
    · rw [List.mem_singleton] at hr
      subst hr
      exact hadds.found he
  · -- the symbols of the requests are imported
    intro r hr symbol hs
    rcases List.mem_append.mp hr with hr | hr
    · exact hall.symbol (h.imported hr hs)
    · rw [List.mem_singleton] at hr
      subst hr
      refine hadds.grows.symbol (isSome_importedKey?_of_importUses huses ?_)
      rw [Kind.map_fst_symbolUses]
      exact hs
  · -- their kinds are well formed
    intro r hr
    rcases List.mem_append.mp hr with hr | hr
    · exact h.checked hr
    · rw [List.mem_singleton] at hr
      subst hr
      exact hcheck
  · -- their arguments fit
    intro r hr
    rcases List.mem_append.mp hr with hr | hr
    · exact h.arguments hr
    · rw [List.mem_singleton] at hr
      subst hr
      exact harguments

/-- What a unit starts with. -/
theorem sound_create (options : Options) (externals : List (String × Provider)) :
    Sound externals [] (create options externals) := by
  have hreg : (create options externals).registry.Sound :=
    List.foldlRecOn _ _ Registry.sound_empty fun _ h entry _ => h.importSymbol entry.1 entry.2
  refine ⟨rfl, hreg, ?_, ?_, ?_, ?_, ?_, ?_⟩
  · intro symbol key hk
    have hfind : List.lookup symbol [(Intrinsic.free.name, 1), (Intrinsic.alloc.name, 0)] =
      some key := hk
    have hsym : symbol = Intrinsic.free.name ∨ symbol = Intrinsic.alloc.name := by
      by_cases hfree : symbol = Intrinsic.free.name
      · exact .inl hfree
      by_cases halloc : symbol = Intrinsic.alloc.name
      · exact .inr halloc
      have hb : (symbol == Intrinsic.free.name) = false := by simpa using hfree
      have hb' : (symbol == Intrinsic.alloc.name) = false := by simpa using halloc
      simp [List.lookup_cons, hb, hb'] at hfind
    change (List.lookup symbol (externals.reverse ++ Provider.ofIntrinsics)).isSome = true
    rw [List.lookup_append]
    rcases hsym with rfl | rfl <;> cases List.lookup _ externals.reverse <;> rfl
  · intro entry key hk
    have hnone : (create options externals).registry.entryKey? entry = none := rfl
    rw [hnone] at hk
    cases hk
  all_goals intro r hr; simp at hr

/-- What holds of a unit and the requests that it has met, and is kept by a request that is met,
holds of every unit that has not failed. -/
theorem requestAll_induction {holds : List Request → Compiler → Prop}
    (hstep : ∀ {done unit request after}, holds done unit → unit.attempt request = .ok after →
      holds (done ++ [request]) after) (requests : List Request) :
    ∀ (done : List Request) {unit : Compiler}, (unit.failure = none → holds done unit) →
      (unit.requestAll requests).failure = none →
      holds (done ++ requests) (unit.requestAll requests) := by
  induction requests with
  | nil => intro done unit h hf; simpa [requestAll] using h hf
  | cons request rest ih =>
    intro done unit h hf
    have hnext : (unit.request request).2.failure = none →
        holds (done ++ [request]) (unit.request request).2 := by
      intro hnone
      unfold Compiler.request at hnone ⊢
      split at hnone
      · next e he => rw [he] at hnone; cases hnone
      · next hunit =>
        split at hnone
        · next after ha => exact hstep (h hunit) ha
        · cases hnone
    have hrest := ih _ hnext hf
    rwa [List.append_assoc] at hrest

/-- A unit that has not failed has met all its requests. -/
theorem sound_requestAll {externals : List (String × Provider)} (requests : List Request)
    (done : List Request) {unit : Compiler} (h : unit.failure = none → Sound externals done unit)
    (hf : (unit.requestAll requests).failure = none) :
    Sound externals (done ++ requests) (unit.requestAll requests) :=
  requestAll_induction (fun hs ha => (hs.attempt ha).1) requests done h hf

/-! ### Requests that are all met -/

/-- All requests are met, one after the other. -/
def Meets : Compiler → List Request → Prop
  | _, [] => True
  | unit, request :: rest =>
    (unit.request request).1 = .ok () ∧ Meets (unit.request request).2 rest

/-- The first failure of a unit stays. -/
theorem failure_requestAll {e : Error} (requests : List Request) :
    ∀ {unit : Compiler}, unit.failure = some e → (unit.requestAll requests).failure = some e := by
  induction requests with
  | nil => exact fun h => h
  | cons request rest ih =>
    intro unit h
    change ((unit.request request).2.requestAll rest).failure = some e
    rw [request_of_failed h]
    exact ih h

/-- A unit fails exactly if it does not meet a request. -/
theorem Sound.meets_iff {externals : List (String × Provider)} {requests : List Request} :
    ∀ {done : List Request} {unit : Compiler}, Sound externals done unit → unit.failure = none →
      (unit.Meets requests ↔ (unit.requestAll requests).failure = none) := by
  induction requests with
  | nil => intro done unit _ hf; exact ⟨fun _ => hf, fun _ => trivial⟩
  | cons request rest ih =>
    intro done unit hs hf
    change (_ ∧ Meets (unit.request request).2 rest) ↔
      ((unit.request request).2.requestAll rest).failure = none
    unfold Compiler.request
    rw [hf]
    cases ha : unit.attempt request with
    | ok after =>
      obtain ⟨hafter, hfailure⟩ := hs.attempt ha
      simpa using ih hafter (hfailure.trans hf)
    | error e =>
      have hfailed : (requestAll { unit with failure := some e } rest).failure = some e :=
        failure_requestAll rest rfl
      simp [hfailed]

end Compiler

end PullIter
