import PullIter.Proofs.Unit.FirstUse

/-!
# What the order of requests decides

Whether a unit compiles depends on which requests are made, and on the order only through the first
uses of symbols.  If a symbol is used in several shapes, the first of them is the one it is imported
in, and the other uses have to make do with it: where the first use is a release, a body that needs the
result of the symbol is refused, while the release is served by a function that has a result.
Without the verifier a call with other parameters than the function has is a fault, which does not
compile either.

## Main definitions

* `Compiles` — every request is met, and the unit is finished.
* `Compilable` — what some requests and the first uses of their symbols have to be like.
* `Compiler.Underway` — a unit that has met the first of some requests.

## Main results

* `Underway.exists_attempt` — the next request can be met.
* `compiles_iff` — which requests compile.
* `compiles_iff_of_firstShapes` — **requests compile in every order** that leaves the first uses of
  their symbols in the same shapes.
* `not_compiles_perm` — in other orders they need not.
-/

namespace PullIter

/-- Every request is met, and the unit is finished. -/
def Compiles (options : Options) (externals : List (String × Provider)) (requests : List Request) :
    Prop :=
  (Compiler.create options externals).Meets requests ∧
    ∃ unit : Compiled, unit.Finished options externals requests

/-- **What compiles**: each request is right by itself, no two bodies bear one name, a body that
bears the name of a symbol has the signature of its first use, and the calls of the bodies are
served by the first uses of the symbols that they call. -/
structure Compilable (externals : List (String × Provider)) (requests : List Request) : Prop where
  /-- The kind, the symbols and the arguments of every request are right. -/
  right : ∀ request ∈ requests, Verdict externals request (.ok ())
  /-- A name has one body. -/
  apart : ∀ {first second}, Needed requests first → Needed requests second →
    first.provision = .lowered → second.provision = .lowered →
      first.symbolName = second.symbolName → first = second
  /-- A symbol that has a body is declared as the body is. -/
  names : ∀ {entry}, Needed requests entry → entry.provision = .lowered →
    ∀ {shape}, firstShape? requests entry.symbolName = some shape →
      shape.signature targetPointerBytes = entry.op.shape.signature targetPointerBytes
  /-- What is called has the parameters of the call, and a result if one is needed. -/
  calls : ∀ {entry}, Needed requests entry → entry.provision = .lowered →
    ∀ {instrs}, entry.body = .ok instrs → ∀ instr ∈ instrs, instr.Fits (firstShape? requests)

/-- A request is right by itself if its kind is, its symbols are registered and its arguments are
taken. -/
theorem Verdict.ok_iff {externals : List (String × Provider)} {request : Request} :
    Verdict externals request (.ok ()) ↔ request.kind.check = .ok () ∧
      (∀ symbol ∈ request.kind.symbols, Registered externals symbol) ∧
      request.checkArgs = .ok () := by
  constructor
  · intro h
    cases h with
    | met kind symbols taken =>
      exact ⟨Kind.check_eq_ok_iff.mpr kind, symbols, Request.checkArgs_eq_ok_iff.mpr taken⟩
  · rintro ⟨hcheck, hsymbols, hargs⟩
    exact .met (Kind.check_eq_ok_iff.mp hcheck) hsymbols (Request.checkArgs_eq_ok_iff.mp hargs)

namespace Compiler

variable {options : Options} {externals : List (String × Provider)} {requests : List Request}
  {unit after : Compiler}

/-! ### Units that compile -/

/-- What a unit has registered and declared that has met all its requests. -/
theorem invariants_of_meets (h : (create options externals).Meets requests) :
    ((create options externals).requestAll requests).failure = none ∧
      Sound externals requests ((create options externals).requestAll requests) ∧
      Declared (usesOf requests) ((create options externals).requestAll requests) ∧
      FirstUses (usesOf requests) ((create options externals).requestAll requests) ∧
      ∀ use ∈ eagerUses, (((create options externals).requestAll requests).registry.importedKey?
        use.1).isSome := by
  have hf := ((sound_create options externals).meets_iff rfl).mp h
  have hs := sound_requestAll requests [] (fun _ => sound_create options externals) hf
  rw [List.nil_append] at hs
  obtain ⟨hd, heager⟩ := declared_requestAll options externals requests hf
  exact ⟨hf, hs, hd, firstUses_requestAll options externals requests hf, heager⟩

/-- The body of a needed entry point is among the lowered bodies of the unit. -/
theorem Sound.mem_lowered (hs : Sound externals requests unit) {entry : Entry}
    (hn : Needed requests entry) (hl : entry.provision = .lowered) :
    ∃ id, (entry, some id) ∈ unit.registry.lowered := by
  obtain ⟨request, hr, he⟩ := hs.exists_plan_iff.mpr hn
  obtain ⟨key, hk⟩ := Option.isSome_iff_exists.mp (hs.available hr he)
  obtain ⟨id, hid⟩ := Option.isSome_iff_exists.mp (hs.registry.entryId hk)
  exact ⟨id, hs.registry.consistent.mem_lowered_iff.mpr ⟨hl, key, hk, hid⟩⟩

/-- The lowered bodies of the unit are those of needed entry points. -/
theorem Sound.needed_of_mem_lowered (hs : Sound externals requests unit) {entry : Entry}
    (hm : entry ∈ unit.registry.lowered.map Prod.fst) :
    Needed requests entry ∧ entry.provision = .lowered := by
  obtain ⟨⟨entry, found⟩, hbody, rfl⟩ := List.mem_map.mp hm
  obtain ⟨hl, key, hk, -⟩ := hs.registry.consistent.mem_lowered_iff.mp hbody
  exact ⟨hs.exists_plan_iff.mp (hs.planned hk), hl⟩

/-- **What compiles is compilable.** -/
theorem compilable_of_compiles (h : Compiles options externals requests) :
    Compilable externals requests := by
  obtain ⟨hmeets, compiled, hfinished⟩ := h
  obtain ⟨-, hs, hd, hfirst, heager⟩ := invariants_of_meets hmeets
  obtain ⟨-, decls, hdefine, -⟩ := finish_eq_ok hfinished
  generalize (create options externals).requestAll requests = unit
    at hs hd hfirst heager hdefine
  refine ⟨fun request hr => ?_, fun {first second} hn hn' hl hl' hname => ?_,
    fun {entry} hn hl shape hshape => ?_, fun {entry} hn hl instrs hbody => ?_⟩
  · -- the requests were met
    refine Verdict.ok_iff.mpr ⟨hs.checked hr, fun symbol hm => ?_, hs.arguments hr⟩
    obtain ⟨key, hk⟩ := Option.isSome_iff_exists.mp (hs.imported hr hm)
    exact (hasSymbol_iff hs.linkable symbol).mp (hs.linked hk)
  · -- the bodies were defined under different names
    obtain ⟨id, hm⟩ := hs.mem_lowered hn hl
    obtain ⟨known, hm'⟩ := hs.mem_lowered hn' hl'
    by_contra hne
    exact distinctBodies_of_defineBodies hd hs.registry hdefine first
      (List.mem_map.mpr ⟨_, hm, rfl⟩) second (List.mem_map.mpr ⟨_, hm', rfl⟩) hne hname
  · -- a name has one signature
    obtain ⟨id, hm⟩ := hs.mem_lowered hn hl
    have hnames := hd.of_mem_lowered hs.registry.consistent hm
    exact (hfirst.signature_eq hd.distinct (List.mem_of_getElem? hnames) hshape).symm
  · -- the bodies were emitted, with calls that fit
    obtain ⟨request, hr, he⟩ := hs.exists_plan_iff.mpr hn
    obtain ⟨id, hm⟩ := hs.mem_lowered hn hl
    obtain ⟨-, emitted, -, hemitted, hemit⟩ := emits_of_defineBodies hdefine _ hm
    obtain ⟨fitting, hfitting, hfit⟩ := hs.exists_body hr he hl
    rw [hbody] at hemitted hfitting
    cases hemitted
    cases hfitting
    exact (emit_iff_fits hs hd hfirst heager hr he hfit).mp hemit

/-! ### Requests that are compilable -/

/-- A unit that has met the first of some requests.  Its names come from what all the requests
need. -/
structure Underway (externals : List (String × Provider)) (requests done : List Request)
    (unit : Compiler) : Prop where
  sound : Sound externals done unit
  declared : Declared (usesOf done) unit
  first : FirstUses (usesOf done) unit
  names : NamesFrom (requests.flatMap Request.plan) unit.decls

/-- The names of the bodies agree with the first uses of the symbols. -/
def NamesFit (uses : List (String × Shape)) (entries : List Entry) : Prop :=
  ∀ entry ∈ entries, entry.provision = .lowered →
    ∀ shape, uses.lookup entry.symbolName = some shape →
      shape.signature targetPointerBytes = entry.op.shape.signature targetPointerBytes

/-- Symbols that are registered can be imported, if no body bears the name of one of them in
another signature than its first use has. -/
theorem exists_importUses_of_namesFit {all : List (String × Shape)} {entries : List Entry}
    (hfit : NamesFit all entries) {more : List (String × Shape)} :
    ∀ {uses : List (String × Shape)} {unit : Compiler}, uses ++ more <+: all →
      FirstUses uses unit → NamesFrom entries unit.decls →
      (∀ use ∈ more, unit.decls.hasSymbol use.1 = true) →
      ∃ after, unit.importUses more = .ok after := by
  induction more with
  | nil => exact fun _ _ _ _ => ⟨_, rfl⟩
  | cons use rest ih =>
    intro uses unit hpart hfirst hnames hsymbols
    obtain ⟨symbol, shape⟩ := use
    obtain ⟨mid, hm⟩ : ∃ mid, unit.importUse symbol shape = .ok mid := by
      refine exists_importUse_of_names (hsymbols _ (List.mem_cons_self ..)) fun hnew known hk => ?_
      rcases hnames _ hk with himported | ⟨entry, hentry, hl, rfl, rfl⟩
      · rw [hnew] at himported
        cases himported
      · -- the symbol was not used before, so this is its first use
        refine (hfit entry hentry hl shape ?_).symm
        obtain ⟨behind, rfl⟩ := hpart
        rw [List.append_assoc, List.lookup_append, hfirst.used hnew]
        simp
    have hgrows := grows_importUse hm
    obtain ⟨after, ha⟩ := ih (by rwa [List.append_assoc]) (hfirst.importUse hm)
      (hnames.importUse hm) fun use hu => by
        rw [hgrows.hasSymbol]
        exact hsymbols use (List.mem_cons_of_mem _ hu)
    exact ⟨after, by simp only [Compiler.importUses, hm, ha]⟩

/-- A plan can be made available, if its symbols are imported and its bodies bear the name of no
symbol in another signature than its first use has. -/
theorem exists_ensureAll_of_namesFit {uses all : List (String × Shape)} {entries plan : List Entry}
    (hfit : NamesFit all entries) (hsub : plan ⊆ entries) (hpart : uses <+: all)
    (hprovision : ∀ entry ∈ plan, entry.provision ≠ .unsupported)
    (hsymbol : ∀ entry ∈ plan, ∀ symbol, entry.provision = .imported symbol →
      (unit.registry.importedKey? symbol).isSome)
    (hreg : unit.registry.Sound) (hd : Declared uses unit) (hfirst : FirstUses uses unit)
    (hnames : NamesFrom entries unit.decls) : ∃ after, unit.ensureAll plan = .ok after := by
  refine @exists_ensureAll_of_step plan (fun found => found.registry.Sound ∧
    Declared uses found ∧ FirstUses uses found ∧ NamesFrom entries found.decls ∧
    ∀ symbol, found.registry.importedKey? symbol = unit.registry.importedKey? symbol)
    ?_ ?_ _ ⟨hreg, hd, hfirst, hnames, fun _ => rfl⟩
  · rintro entry he found ⟨-, hd, hfirst, hnames, hkeys⟩
    refine exists_ensure_of_names (hprovision entry he) (fun symbol hp => ?_) fun hl known hk => ?_
    · rw [hkeys]
      exact hsymbol entry he symbol hp
    · rcases hnames _ hk with himported | ⟨other, -, -, hn, rfl⟩
      · obtain ⟨id, hid⟩ := Option.isSome_iff_exists.mp himported
        obtain ⟨shape, hshape, -⟩ := hfirst.imported hid
        rw [hfirst.signature_eq hd.distinct hk hshape]
        obtain ⟨behind, rfl⟩ := hpart
        exact hfit entry (hsub he) hl shape (lookup_append_of_some hshape)
      · rw [Entry.shape_eq_of_symbolName_eq hn]
  · rintro entry he found after ⟨hreg, hd, hfirst, hnames, hkeys⟩ ha
    have hadds := adds_ensure ha
    exact ⟨hadds.sound hreg, hd.ensure hreg.consistent ha, hfirst.ensure ha,
      hnames.ensure (hsub he) ha, fun symbol => (hadds.symbol symbol).trans (hkeys symbol)⟩

/-- **The next request can be met**, if it is right and the names of the bodies agree with the first
uses. -/
theorem Underway.exists_attempt {done rest : List Request} {request : Request}
    (h : Underway externals requests done unit) (hall : requests = done ++ request :: rest)
    (hfit : NamesFit (usesOf requests) (requests.flatMap Request.plan))
    (hright : Verdict externals request (.ok ())) : ∃ after, unit.attempt request = .ok after := by
  obtain ⟨hcheck, hregistered, hargs⟩ := Verdict.ok_iff.mp hright
  have hsymbols : ∀ symbol ∈ request.kind.symbols, unit.decls.hasSymbol symbol = true :=
    fun symbol hm => (hasSymbol_iff h.sound.linkable symbol).mpr (hregistered symbol hm)
  have huses : usesOf requests =
      usesOf done ++ request.kind.symbolUses ++ symbolUsesOf rest := by
    rw [hall, usesOf_append, symbolUsesOf, List.flatMap_cons, ← List.append_assoc]
    rfl
  have hpart : usesOf done ++ request.kind.symbolUses <+: usesOf requests :=
    ⟨symbolUsesOf rest, huses.symm⟩
  -- the uses so far and those of the request are the first of all uses, so the names agree with
  -- them
  obtain ⟨mid, hmid⟩ := exists_importUses_of_namesFit hfit hpart h.first h.names
    fun use hu => hsymbols _ (by rw [← Kind.map_fst_symbolUses]; exact List.mem_map_of_mem hu)
  obtain ⟨hreg, -, -⟩ := h.sound.importUses hsymbols hmid
  have hplan : request.plan ⊆ requests.flatMap Request.plan := by
    intro entry he
    exact List.mem_flatMap.mpr ⟨request, by rw [hall]; simp, he⟩
  have hdeclared : Declared (usesOf done ++ request.kind.symbolUses) mid :=
    (h.declared.mono (List.subset_append_left ..)).importUses h.sound.registry
      (List.subset_append_right ..) hmid
  -- the symbols are imported before the bodies of the plan are made available
  obtain ⟨after, ha⟩ := exists_ensureAll_of_namesFit hfit hplan hpart
    (fun entry he => Request.provision_ne_of_mem_plan hcheck hargs he)
    (fun entry he symbol hp => by
      refine isSome_importedKey?_of_importUses hmid ?_
      exact List.mem_map_of_mem ((Kind.within_of_mem_requestPlan he).uses
        (Entry.mem_symbolUses_of_provision hp)))
    hreg hdeclared (h.first.importUses hmid) (h.names.importUses hmid)
  exact ⟨after, h.sound.attempt_of_ensureAll hcheck hargs hsymbols hmid ha⟩

/-- A request that is met leaves the unit underway. -/
theorem Underway.attempt {done rest : List Request} {request : Request}
    (h : Underway externals requests done unit) (hall : requests = done ++ request :: rest)
    (ha : unit.attempt request = .ok after) :
    Underway externals requests (done ++ [request]) after := by
  obtain ⟨-, -, -, mid, huses, hplan⟩ := h.sound.attempt_eq_ok ha
  refine ⟨(h.sound.attempt ha).1, h.declared.attempt h.sound ha, h.first.attempt h.sound ha,
    NamesFrom.ensureAll (fun entry he => ?_) (h.names.importUses huses) hplan⟩
  exact List.mem_flatMap.mpr ⟨request, by rw [hall]; simp, he⟩

/-- **The rest of the requests** is met, one after the other. -/
theorem Underway.meets (hfit : NamesFit (usesOf requests) (requests.flatMap Request.plan))
    (hright : ∀ request ∈ requests, Verdict externals request (.ok ())) {rest : List Request} :
    ∀ {done : List Request} {unit : Compiler}, Underway externals requests done unit →
      requests = done ++ rest → unit.failure = none → unit.Meets rest := by
  induction rest with
  | nil => exact fun _ _ _ => trivial
  | cons request rest ih =>
    intro done unit h hall hf
    obtain ⟨after, ha⟩ := h.exists_attempt hall hfit (hright request (by rw [hall]; simp))
    have hrequest : unit.request request = (.ok (), after) := by
      unfold Compiler.request
      simp only [hf, ha]
    refine ⟨by rw [hrequest], ?_⟩
    rw [hrequest]
    exact ih (h.attempt hall ha) (by rw [hall, List.append_assoc]; rfl)
      ((h.sound.attempt ha).2.trans hf)

theorem underway_create (options : Options) (externals : List (String × Provider))
    (requests : List Request) : Underway externals requests [] (create options externals) := by
  refine ⟨sound_create options externals, declared_create options externals,
    firstUses_create options externals, ?_⟩
  exact (namesFrom_requestAll options externals [] rfl).mono (List.nil_subset _)

/-- Compilable requests are met. -/
theorem meets_of_compilable (options : Options) (h : Compilable externals requests) :
    (create options externals).Meets requests := by
  refine (underway_create options externals requests).meets (fun entry he hl shape hshape => ?_)
    h.right rfl rfl
  refine h.names ?_ hl hshape
  refine (exists_mem_plan_iff_needed (fun request hr => ?_) fun request hr => ?_).mp
    (List.mem_flatMap.mp he)
  · exact (Verdict.ok_iff.mp (h.right request hr)).1
  · exact (Verdict.ok_iff.mp (h.right request hr)).2.2

/-- **What is compilable compiles.** -/
theorem compiles_of_compilable (options : Options) (h : Compilable externals requests) :
    Compiles options externals requests := by
  have hmeets := meets_of_compilable options h
  refine ⟨hmeets, ?_⟩
  obtain ⟨hf, hs, hd, hfirst, heager⟩ := invariants_of_meets hmeets
  unfold Compiled.Finished
  generalize (create options externals).requestAll requests = unit at hf hs hd hfirst heager
  have hemits : ∀ body ∈ unit.registry.lowered, Emits unit.registry unit.decls body := by
    refine fun body hm => hs.emits hm fun hr he hl => ?_
    obtain ⟨instrs, hbody, hfit⟩ := hs.exists_body hr he hl
    have hn := hs.exists_plan_iff.mp ⟨_, hr, he⟩
    exact ⟨instrs, hbody,
      (emit_iff_fits hs hd hfirst heager hr he hfit).mpr (h.calls hn hl hbody)⟩
  rw [finish_of_failure_none hf]
  rcases defineBodies_of_emits hemits with
    ⟨after, hb⟩ | ⟨before, entry, id, behind, heq, hknown, -⟩
  · exact ⟨_, by rw [hb]; rfl⟩
  · -- two bodies of one name were excluded
    obtain ⟨other, ho, he, hne, hname⟩ := exists_same_name hd hs.registry.consistent heq hknown
    obtain ⟨hn, hl⟩ := hs.needed_of_mem_lowered he
    obtain ⟨hn', hl'⟩ := hs.needed_of_mem_lowered ho
    exact absurd (h.apart hn hn' hl hl' hname) hne

/-- **Which requests compile**, whatever the options. -/
theorem compiles_iff (options : Options) (externals : List (String × Provider))
    (requests : List Request) :
    Compiles options externals requests ↔ Compilable externals requests :=
  ⟨compilable_of_compiles, compiles_of_compilable options⟩

end Compiler

/-! ### Other orders -/

variable {externals : List (String × Provider)} {requests : List Request}

/-- A symbol that no requested kind names is used by the unit itself, if at all. -/
theorem firstShape?_of_not_mem {symbol : String}
    (h : ∀ request ∈ requests, symbol ∉ request.kind.symbols) :
    firstShape? requests symbol = eagerUses.lookup symbol := by
  have hnone : (symbolUsesOf requests).lookup symbol = none := by
    refine List.lookup_eq_none_iff.mpr fun use hu => ?_
    obtain ⟨request, hr, hm⟩ := List.mem_flatMap.mp hu
    have hne : symbol ≠ use.1 := by
      rintro rfl
      refine h request hr ?_
      rw [← Kind.map_fst_symbolUses]
      exact List.mem_map_of_mem hm
    simpa using hne
  rw [firstShape?, usesOf, List.lookup_append, hnone, Option.or_none]

/-- First uses that agree on the symbols of the requested kinds agree on all symbols. -/
theorem firstShape?_congr {others : List Request}
    (hsame : ∀ request, request ∈ others ↔ request ∈ requests)
    (hfirst : ∀ request ∈ requests, ∀ symbol ∈ request.kind.symbols,
      firstShape? others symbol = firstShape? requests symbol) :
    firstShape? others = firstShape? requests := by
  funext symbol
  by_cases hm : ∃ request ∈ requests, symbol ∈ request.kind.symbols
  · obtain ⟨request, hr, hsymbol⟩ := hm
    exact hfirst request hr symbol hsymbol
  · have hnone : ∀ request ∈ requests, symbol ∉ request.kind.symbols :=
      fun request hr hs => hm ⟨request, hr, hs⟩
    rw [firstShape?_of_not_mem hnone,
      firstShape?_of_not_mem fun request hr => hnone request ((hsame request).mp hr)]

/-- The order and the number of the requests count only as far as first uses go. -/
theorem Compilable.congr {others : List Request} (h : Compilable externals requests)
    (hsame : ∀ request, request ∈ others ↔ request ∈ requests)
    (hfirst : firstShape? others = firstShape? requests) : Compilable externals others := by
  have hneeded : ∀ {entry}, Needed others entry → Needed requests entry :=
    fun hn => hn.mono fun request hr => (hsame request).mp hr
  refine ⟨fun request hr => h.right request ((hsame request).mp hr), fun hn hn' => ?_,
    fun hn hl shape hshape => ?_, fun hn hl instrs hbody => ?_⟩
  · exact h.apart (hneeded hn) (hneeded hn')
  · exact h.names (hneeded hn) hl (hfirst ▸ hshape)
  · rw [hfirst]
    exact h.calls (hneeded hn) hl hbody

/-- **Some requests compile in one order exactly if they do in another** in which the first uses of
their symbols have the same shapes, also if some of them are repeated; and they compile exactly if
they are compilable. -/
theorem compiles_iff_of_firstShapes (options : Options) (externals : List (String × Provider))
    (requests others : List Request) (hsame : ∀ request, request ∈ others ↔ request ∈ requests)
    (hfirst : ∀ request ∈ requests, ∀ symbol ∈ request.kind.symbols,
      firstShape? others symbol = firstShape? requests symbol) :
    (Compiles options externals requests ↔ Compilable externals requests) ∧
      (Compiles options externals others ↔ Compiles options externals requests) := by
  have heq := firstShape?_congr hsame hfirst
  refine ⟨Compiler.compiles_iff options externals requests, ?_⟩
  rw [Compiler.compiles_iff, Compiler.compiles_iff]
  exact ⟨fun h => h.congr (fun request => (hsame request).symm) heq.symm,
    fun h => h.congr hsame heq⟩

/-- What makes an iterator of one iterable releases the iterators of another. -/
def sharedSymbols : List (String × Provider) :=
  [("shared", .scriptGetiter), ("make", .scriptGetiter), ("advance", .scriptNext)]

/-- A loop over an iterable that `shared` makes iterators of. -/
def opened : Request :=
  .loop (.external (.iterable "opened" .i64 "shared" (.iterator "opened.iter" .i64 "advance" none)))

/-- A loop over an iterable whose iterators `shared` releases. -/
def owned : Request :=
  .loop (.external (.iterable "owned" .i64 "make"
    (.iterator "owned.iter" .i64 "advance" (some "shared"))))

/-- Wherever the loop over an array comes, the loops compile as long as the first of the other two
uses is the one that needs a result. -/
theorem compiles_iff_of_firstShapes_shared :
    Compiles .debug sharedSymbols [opened, owned, .loop .array] ∧
      Compiles .debug sharedSymbols [.loop .array, opened, .loop .array, owned] ∧
      Compilable sharedSymbols [opened, owned, .loop .array] := by
  have h := compiles_iff_of_firstShapes .debug sharedSymbols [opened, owned, .loop .array]
    [.loop .array, opened, .loop .array, owned]
    (fun request => by
      simp only [List.mem_cons, List.not_mem_nil, or_false]
      constructor
      · rintro (rfl | rfl | rfl | rfl) <;> simp
      · rintro (rfl | rfl | rfl) <;> simp)
    (by decide)
  have hcompiles : Compiles .debug sharedSymbols [opened, owned, .loop .array] :=
    ⟨⟨rfl, rfl, rfl, trivial⟩, _, rfl⟩
  exact ⟨hcompiles, h.2.mpr hcompiles, h.1.mp hcompiles⟩

/-- **The order decides** whether two loops compile that use one symbol in two shapes: if the
release comes first, then the loop that needs the result of the symbol is refused. -/
theorem not_compiles_perm :
    ¬∀ (options : Options) (externals : List (String × Provider)) (requests others : List Request),
      options.release = false →
      (∀ request ∈ requests, ∀ symbol ∈ request.kind.symbols, Registered externals symbol) →
      others.Perm requests →
      (Compiles options externals others ↔ Compiles options externals requests) := by
  intro hall
  have hregistered : ∀ request ∈ [opened, owned], ∀ symbol ∈ request.kind.symbols,
      Registered sharedSymbols symbol := by
    have hlisted : ∀ request ∈ [opened, owned], ∀ symbol ∈ request.kind.symbols,
        symbol ∈ sharedSymbols.map Prod.fst := by decide
    intro request hr symbol hm
    obtain ⟨entry, he, rfl⟩ := List.mem_map.mp (hlisted request hr symbol hm)
    exact .inl ⟨entry.2, he⟩
  have h := hall .debug sharedSymbols [opened, owned] [owned, opened] rfl hregistered (.swap ..)
  obtain ⟨-, unit, hfinished⟩ := h.mpr ⟨⟨rfl, rfl, trivial⟩, _, rfl⟩
  have hrefused : ((Compiler.create .debug sharedSymbols).requestAll [owned, opened]).finish =
      .ok (.error (.internal "call returned no value" (some "shared"))) := rfl
  rw [Compiled.Finished, hrefused] at hfinished
  cases hfinished

end PullIter
