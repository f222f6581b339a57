import PullIter.Proofs.Unit.Verdict

/-!
# The first use of a symbol

A symbol is imported when it is used for the first time, and it keeps the signature of that use;
later uses of other shapes neither change it nor are refused.  What is wrong with them shows when
the bodies are emitted: a call is refused if the first use of its symbol had a shape that does not
serve the call.

## Main definitions

* `firstShape?` — the shape of the first use of a symbol by some requests.
* `Instr.Fits` — the calls of symbols are served by the first shapes of the symbols.
* `Compiler.FirstUses` — the symbols that are imported are those used so far, each with the
  signature of its first use.

## Main results

* `FirstUses.importUse`, `FirstUses.ensure` — every part of a request keeps the first uses.
* `firstUses_requestAll` — the signatures of the symbols of a unit that has not failed.
* `emit_iff_fits` — a body can be emitted exactly if its calls fit.
-/

namespace PullIter

/-- The shape of the first use of a symbol, where the memory primitives are used before everything
else. -/
def firstShape? (requests : List Request) (symbol : String) : Option Shape :=
  (usesOf requests).lookup symbol

/-- If the instruction calls a symbol, then the first shape of the symbol serves the call. -/
def Instr.Fits (firstShape? : String → Option Shape) : Instr → Prop
  | .call callee params needed => ∀ symbol, callee.function = .imported symbol →
    ∀ shape, firstShape? symbol = some shape →
      (shape.signature targetPointerBytes).Serves params needed
  | .address .. | .load .. | .store .. => True

namespace Compiler

/-- The symbols that are imported are those that were used, and each is declared in the shape that
it was used in first. -/
structure FirstUses (uses : List (String × Shape)) (unit : Compiler) : Prop where
  imported : ∀ {symbol id}, unit.decls.imported.lookup symbol = some id →
    ∃ shape, uses.lookup symbol = some shape ∧
      unit.decls.names[id]? = some (symbol, shape.signature targetPointerBytes)
  used : ∀ {symbol}, unit.decls.imported.lookup symbol = none → uses.lookup symbol = none

variable {uses : List (String × Shape)} {unit after : Compiler}

/-! ### What requests keep -/

/-- A further use of a symbol that was used does not change its first shape. -/
theorem lookup_append_of_some {uses more : List (String × Shape)} {symbol : String} {shape : Shape}
    (h : uses.lookup symbol = some shape) : (uses ++ more).lookup symbol = some shape := by
  rw [List.lookup_append, h, Option.some_or]

theorem lookup_append_of_ne {uses : List (String × Shape)} {symbol other : String}
    (h : uses.lookup other = none) (hne : other ≠ symbol) (shape : Shape) :
    (uses ++ [(symbol, shape)]).lookup other = none := by
  rw [List.lookup_append, h, Declarations.lookup_singleton, if_neg hne]
  rfl

/-- **The use of a symbol** imports it, if it was not used before. -/
theorem FirstUses.importUse (h : FirstUses uses unit) {symbol : String} {shape : Shape}
    (ha : unit.importUse symbol shape = .ok after) :
    FirstUses (uses ++ [(symbol, shape)]) after := by
  obtain ⟨decls, id, hd, rfl⟩ := importUse_eq_ok ha
  rcases Declarations.importSymbol_eq_ok hd with ⟨hid, rfl⟩ | ⟨hnone, hnames, himported⟩
  · refine ⟨fun hi => ?_, fun {other} hi => lookup_append_of_ne (h.used hi) ?_ shape⟩
    · obtain ⟨found, hfound, hnames⟩ := h.imported hi
      exact ⟨found, lookup_append_of_some hfound, hnames⟩
    · rintro rfl
      rw [hid] at hi
      cases hi
  · -- the symbol is new, and this is its first use
    have hself : (uses ++ [(symbol, shape)]).lookup symbol = some shape := by
      rw [List.lookup_append, h.used hnone]
      simp
    refine ⟨fun {other known} hi => ?_, fun {other} hi => ?_⟩
    · rw [himported] at hi
      rcases Declarations.of_lookup_note hi with hi | ⟨rfl, rfl⟩
      · obtain ⟨found, hfound, hold⟩ := h.imported hi
        exact ⟨found, lookup_append_of_some hfound, hnames.grows.getElem? hold⟩
      · exact ⟨shape, hself, hnames.found⟩
    · rw [himported, ← Option.not_isSome_iff_eq_none, Declarations.isSome_lookup_note, not_or,
        Option.not_isSome_iff_eq_none] at hi
      exact lookup_append_of_ne (h.used hi.1) hi.2 shape

theorem FirstUses.importUses {more : List (String × Shape)} :
    ∀ {uses : List (String × Shape)} {unit after : Compiler}, FirstUses uses unit →
      unit.importUses more = .ok after → FirstUses (uses ++ more) after := by
  induction more with
  | nil => intro uses unit after h ha; cases ha; rwa [List.append_nil]
  | cons use rest ih =>
    intro uses unit after h ha
    rw [Compiler.importUses] at ha
    split at ha
    · cases ha
    · next mid hm =>
      have hrest := ih (h.importUse hm) ha
      rwa [List.append_assoc] at hrest

/-- Making an entry point available uses no symbol. -/
theorem FirstUses.ensure (h : FirstUses uses unit) {entry : Entry}
    (ha : unit.ensure entry = .ok after) : FirstUses uses after := by
  obtain ⟨-, rfl⟩ | ⟨-, decls, id, hd, rfl⟩ | ⟨symbol, known, -, -, rfl⟩ := ensure_eq_ok ha
  · exact h
  · obtain ⟨hnames, himported⟩ := Declarations.declare_eq_ok hd
    refine ⟨fun hi => ?_, fun hi => h.used (himported ▸ hi)⟩
    obtain ⟨shape, hshape, hold⟩ := h.imported (himported ▸ hi)
    exact ⟨shape, hshape, hnames.grows.getElem? hold⟩
  · exact ⟨h.imported, h.used⟩

theorem FirstUses.ensureAll {plan : List Entry} :
    ∀ {unit after : Compiler}, FirstUses uses unit → unit.ensureAll plan = .ok after →
      FirstUses uses after := by
  induction plan with
  | nil => intro unit after h ha; cases ha; exact h
  | cons entry rest ih =>
    intro unit after h ha
    rw [Compiler.ensureAll] at ha
    split at ha
    · cases ha
    · next mid hm => exact ih (h.ensure hm) ha

/-- A request that is met uses the symbols of its kind. -/
theorem FirstUses.attempt {externals : List (String × Provider)} {requests : List Request}
    {request : Request} (h : FirstUses (usesOf requests) unit)
    (hs : Sound externals requests unit) (ha : unit.attempt request = .ok after) :
    FirstUses (usesOf (requests ++ [request])) after := by
  obtain ⟨-, -, -, mid, huses, hplan⟩ := hs.attempt_eq_ok ha
  have hmid := (h.importUses huses).ensureAll hplan
  rwa [usesOf_append, symbolUsesOf, List.flatMap_singleton]

theorem firstUses_create (options : Options) (externals : List (String × Provider)) :
    FirstUses (usesOf []) (create options externals) := by
  have huses : usesOf [] = [(Intrinsic.alloc.name, .alloc), (Intrinsic.free.name, .free)] := rfl
  have himported : (create options externals).decls.imported =
      [(Intrinsic.alloc.name, 0), (Intrinsic.free.name, 1)] := rfl
  constructor
  · intro symbol id hi
    rw [himported, List.lookup_cons] at hi
    rw [huses, List.lookup_cons]
    by_cases ha : symbol = Intrinsic.alloc.name
    · subst ha
      cases hi
      exact ⟨_, rfl, rfl⟩
    · have hb : (symbol == Intrinsic.alloc.name) = false := by simpa using ha
      rw [hb, List.lookup_cons] at hi ⊢
      by_cases hf : symbol = Intrinsic.free.name
      · subst hf
        cases hi
        exact ⟨_, rfl, rfl⟩
      · have hb' : (symbol == Intrinsic.free.name) = false := by simpa using hf
        rw [hb'] at hi
        cases hi
  · intro symbol hi
    rw [himported, List.lookup_eq_none_iff] at hi
    rw [huses, List.lookup_eq_none_iff]
    simpa using hi

/-- **The symbols of a unit that has not failed** are declared in the shapes of their first uses. -/
theorem firstUses_requestAll (options : Options) (externals : List (String × Provider))
    (requests : List Request)
    (hf : ((create options externals).requestAll requests).failure = none) :
    FirstUses (usesOf requests) ((create options externals).requestAll requests) := by
  refine (@requestAll_induction (fun done unit => Sound externals done unit ∧
    FirstUses (usesOf done) unit) ?_ requests [] _
    (fun _ => ⟨sound_create options externals, firstUses_create options externals⟩) hf).2
  rintro done unit request after ⟨hs, hfirst⟩ ha
  exact ⟨(hs.attempt ha).1, hfirst.attempt hs ha⟩

/-! ### What is emitted -/

/-- The name of a symbol that was used has the signature of the first use. -/
theorem FirstUses.signature_eq (h : FirstUses uses unit)
    (hdistinct : (unit.decls.names.map Prod.fst).Nodup) {symbol : String} {signature : Signature}
    {shape : Shape} (hm : (symbol, signature) ∈ unit.decls.names)
    (hu : uses.lookup symbol = some shape) : signature = shape.signature targetPointerBytes := by
  cases hi : unit.decls.imported.lookup symbol with
  | none =>
    rw [h.used hi] at hu
    cases hu
  | some id =>
    obtain ⟨found, hfound, hnames⟩ := h.imported hi
    rw [hu] at hfound
    cases hfound
    have heq := List.inj_on_of_nodup_map hdistinct hm (List.mem_of_getElem? hnames) rfl
    exact congrArg Prod.snd heq

variable {externals : List (String × Provider)} {requests : List Request}

/-- **A call that a body may hold** is emitted, and fits its function, exactly if the first shape of
the symbol that it calls serves it. -/
theorem emitOne_call_iff_fits (hs : Sound externals requests unit)
    (hd : Declared (usesOf requests) unit) (hfirst : FirstUses (usesOf requests) unit)
    (heager : ∀ use ∈ eagerUses, (unit.registry.importedKey? use.1).isSome)
    {entry : Entry} {request : Request} (hr : request ∈ requests) (he : entry ∈ request.plan)
    {callee : Callee} {params : List Param} {needed : Option String}
    (hfit : (Instr.call callee params needed).Fitting entry) :
    Instr.emitOne unit.registry unit.decls (.call callee params needed) = .ok true ↔
      (Instr.call callee params needed).Fits (firstShape? requests) := by
  obtain ⟨id, found, hresolve, hfound, hnames⟩ := resolve_of_fitting hs hd heager hr he hfit
  obtain ⟨shape, hused, rfl, hneeded⟩ := exists_shape_of_fitting hr he hfit
  rw [Instr.emitOne_call_iff hresolve hnames]
  cases hf : callee.function with
  | lowered body =>
    -- a lowered body has the one shape of its operation
    rw [hf] at hfound hused
    obtain rfl : found = shape := Eq.trans hfound (Eq.symm hused)
    refine iff_of_true (Shape.serves hneeded) fun symbol heq => ?_
    rw [hf] at heq
    cases heq
  | imported symbol =>
    rw [hf] at hfound hnames
    obtain ⟨first, hlookup⟩ : ∃ first, (usesOf requests).lookup symbol = some first := by
      refine Option.ne_none_iff_exists'.mp fun hnone => ?_
      simpa using List.lookup_eq_none_iff.mp hnone _ hfound
    have heq := hfirst.signature_eq hd.distinct (List.mem_of_getElem? hnames) hlookup
    rw [heq]
    constructor
    · intro hserves other ho shape' hshape'
      rw [hf] at ho
      cases ho
      rw [firstShape?, hlookup] at hshape'
      cases hshape'
      exact hserves
    · exact fun hfits => hfits symbol hf first hlookup

/-- **The body of a needed entry point** can be emitted exactly if its calls fit the first uses of
the symbols that they call. -/
theorem emit_iff_fits (hs : Sound externals requests unit)
    (hd : Declared (usesOf requests) unit) (hfirst : FirstUses (usesOf requests) unit)
    (heager : ∀ use ∈ eagerUses, (unit.registry.importedKey? use.1).isSome)
    {entry : Entry} {request : Request} (hr : request ∈ requests) (he : entry ∈ request.plan)
    {instrs : List Instr} (hfit : ∀ instr ∈ instrs, instr.Fitting entry) :
    Instr.emit unit.registry unit.decls instrs = .ok true ↔
      ∀ instr ∈ instrs, instr.Fits (firstShape? requests) := by
  constructor
  · intro hemit instr hm
    cases instr with
    | call callee params needed =>
      exact (emitOne_call_iff_fits hs hd hfirst heager hr he (hfit _ hm)).mp
        (Instr.emit_eq_ok_iff.mp hemit _ hm)
    | address => trivial
    | load => trivial
    | store => trivial
  · intro hfits
    exact Instr.emit_of_calls hfit fun hm =>
      (emitOne_call_iff_fits hs hd hfirst heager hr he (hfit _ hm)).mpr (hfits _ hm)

end Compiler

end PullIter
