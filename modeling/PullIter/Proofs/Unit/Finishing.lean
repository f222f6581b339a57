import PullIter.Proofs.Unit.Closure
import PullIter.Proofs.Unit.Declared

/-!
# Finishing a unit

A unit that has met its requests has declared everything that its lowered bodies call.  If no
symbol is used in two shapes, every call also fits what it calls, so that every body can be
emitted.  The only thing that may then go wrong is that two bodies bear one name: kinds may print
alike, and a name has one body.

## Main definitions

* `OneShape` — every symbol is used in one shape.
* `Compiler.Finishes` — the bodies of a unit can be emitted, and finishing it fails only for a
  name that two of them bear.

## Main results

* `emit_body` — every lowered body of a unit whose symbols have one shape each can be emitted.
* `defineBodies_of_emits` — bodies that can be emitted are defined, up to the first known identity.
* `finishes_of_meets` — a unit whose symbols have one shape each finishes.
-/

namespace PullIter

/-! ### Emitting -/

/-- A function of the signature serves a call with arguments for these parameters, whose result is
needed or not. -/
def Signature.Serves (signature : Signature) (params : List Param) (needed : Option String) :
    Prop :=
  signature.params = params.map (Param.register targetPointerBytes) ∧
    (needed.isSome → signature.returns ≠ [])

instance (signature : Signature) (params : List Param) (needed : Option String) :
    Decidable (signature.Serves params needed) :=
  inferInstanceAs (Decidable (_ ∧ _))

/-- A function of the shape in which a call is made serves the call. -/
theorem Shape.serves {shape : Shape} {needed : Option String}
    (h : needed.isSome → shape.result.isSome) :
    (shape.signature targetPointerBytes).Serves shape.params needed := by
  refine ⟨rfl, fun hn => ?_⟩
  obtain ⟨result, hresult⟩ := Option.isSome_iff_exists.mp (h hn)
  simp [signature, hresult]

namespace Instr

theorem emitAccess_of_hasScalar {layout : Layout} {index : Nat} (h : layout.HasScalar index)
    (refusal : String) : emitAccess layout index refusal = .ok () := by
  obtain ⟨field, hf, hs⟩ := h
  rw [emitAccess, hf]
  simp only [if_pos hs]

/-- A call is emitted and fits exactly if the signature of its function serves it. -/
theorem emitOne_call_iff {registry : Registry} {decls : Declarations} {callee : Callee} {id : Nat}
    {name : String} {signature : Signature} {params : List Param} {needed : Option String}
    (hr : callee.resolve registry = .ok id) (hd : decls.names[id]? = some (name, signature)) :
    emitOne registry decls (.call callee params needed) = .ok true ↔
      signature.Serves params needed := by
  simp only [emitOne, hr, hd, Option.map_some, Option.getD_some, Signature.Serves]
  cases needed with
  | none => simp
  | some label => cases signature.returns <;> simp

/-- Instructions are emitted, with calls that fit, exactly if each of them is. -/
theorem emit_eq_ok_iff {registry : Registry} {decls : Declarations} {instrs : List Instr} :
    emit registry decls instrs = .ok true ↔
      ∀ instr ∈ instrs, emitOne registry decls instr = .ok true := by
  induction instrs with
  | nil => simp [emit]
  | cons instr rest ih =>
    rw [emit, List.forall_mem_cons, ← ih]
    cases emitOne registry decls instr with
    | error e => simp
    | ok fits => cases emit registry decls rest <;> simp [Except.map]

/-- The instructions of a body can be emitted, if its calls can. -/
theorem emit_of_calls {entry : Entry} {registry : Registry} {decls : Declarations}
    {instrs : List Instr} (hfit : ∀ instr ∈ instrs, instr.Fitting entry)
    (hcall : ∀ {callee params needed}, Instr.call callee params needed ∈ instrs →
      emitOne registry decls (.call callee params needed) = .ok true) :
    emit registry decls instrs = .ok true := by
  refine emit_eq_ok_iff.mpr fun instr hm => ?_
  have hinstr := hfit instr hm
  cases hinstr with
  | address hf => rw [emitOne, hf]; rfl
  | load hf => rw [emitOne, emitAccess_of_hasScalar hf]; rfl
  | store hf => rw [emitOne, emitAccess_of_hasScalar hf]; rfl
  | entry => exact hcall hm
  | symbol => exact hcall hm

/-- What is emitted depends on the declared names only, and on no body. -/
theorem emit_congr {registry : Registry} {decls other : Declarations}
    (h : decls.names = other.names) (instrs : List Instr) :
    emit registry decls instrs = emit registry other instrs := by
  induction instrs with
  | nil => rfl
  | cons instr rest ih =>
    have hone : emitOne registry decls instr = emitOne registry other instr := by
      cases instr with
      | call callee params needed => simp only [emitOne, h]
      | address => rfl
      | load => rfl
      | store => rfl
    rw [emit, emit, hone, ih]

end Instr

/-! ### Shapes of symbols -/

/-- Every symbol is used in one shape. -/
def OneShape (uses : List (String × Shape)) : Prop :=
  ∀ use ∈ uses, ∀ other ∈ uses, use.1 = other.1 → use.2 = other.2

instance (uses : List (String × Shape)) : Decidable (OneShape uses) :=
  inferInstanceAs (Decidable (∀ use ∈ uses, ∀ other ∈ uses, use.1 = other.1 → use.2 = other.2))

/-- A function may be declared in one shape, if every symbol is used in one. -/
theorem OneShape.hasShape_unique {uses : List (String × Shape)} (h : OneShape uses)
    {name : FunctionName} {shape other : Shape} (hs : name.HasShape uses shape)
    (ho : name.HasShape uses other) : shape = other := by
  cases name with
  | lowered entry => exact Eq.trans hs (Eq.symm ho)
  | imported symbol => exact h _ hs _ ho rfl

/-- The memory primitives have their own shapes, unless a requested kind uses their names. -/
theorem OneShape.usesOf {requests : List Request} (h : OneShape (symbolUsesOf requests))
    (heager : ∀ use ∈ symbolUsesOf requests,
      use.1 ≠ Intrinsic.alloc.name ∧ use.1 ≠ Intrinsic.free.name) :
    OneShape (usesOf requests) := by
  have hapart : ∀ use ∈ eagerUses, ∀ other ∈ symbolUsesOf requests, use.1 ≠ other.1 := by
    intro use hu other ho heq
    rcases mem_eagerUses.mp hu with rfl | rfl
    · exact (heager other ho).1 heq.symm
    · exact (heager other ho).2 heq.symm
  intro use hu other ho heq
  rcases List.mem_append.mp hu with hu | hu <;> rcases List.mem_append.mp ho with ho | ho
  · have hprimitives : OneShape eagerUses := by decide
    exact hprimitives use hu other ho heq
  · exact absurd heq (hapart use hu other ho)
  · exact absurd heq.symm (hapart other ho use hu)
  · exact h use hu other ho heq

/-- The symbol that provides an entry point is used in the shape of the operation. -/
theorem Entry.mem_symbolUses_of_provision {entry : Entry} {symbol : String}
    (h : entry.provision = .imported symbol) : (symbol, entry.op.shape) ∈ entry.kind.symbolUses := by
  obtain ⟨op, kind⟩ := entry
  cases op with
  | getiter => cases h
  | construct args => cases kind <;> cases h
  | forEach => cases h
  | iternext =>
    cases kind with
    | external ext =>
      cases ext with
      | iterator => cases h; exact List.mem_cons_self ..
      | iterable => cases h
    | enumerate => cases h
    | zip => cases h
    | generator => cases h
  | release =>
    cases kind with
    | external ext =>
      cases ext with
      | iterator name yields next release =>
        cases release with
        | none => cases h
        | some release => cases h; exact List.mem_cons_of_mem _ (List.mem_singleton_self _)
      | iterable => cases h
    | enumerate => cases h
    | zip => cases h
    | generator => cases h

/-- The function that a call is of: the symbol that it names, or what provides the entry point. -/
def Callee.function : Callee → FunctionName
  | entry callee =>
    match callee.provision with
    | .imported name => .imported name
    | _ => .lowered callee
  | symbol name => .imported name

namespace Compiler

variable {externals : List (String × Provider)} {requests : List Request} {unit : Compiler}

/-! ### Callees -/

/-- A function that is looked up is there, with the identity that it is declared under. -/
theorem Declared.of_name? {uses : List (String × Shape)} (hd : Declared uses unit) {key : Nat}
    {name : FunctionName} (hn : unit.registry.name? key = some name)
    (hi : (unit.registry.id? key).isSome) :
    ∃ id shape, unit.registry.id? key = some id ∧ name.HasShape uses shape ∧
      unit.decls.names[id]? = some (name.display, shape.signature targetPointerBytes) := by
  obtain ⟨f, hf, rfl⟩ := Option.map_eq_some_iff.mp hn
  obtain ⟨id, hid⟩ := Option.isSome_iff_exists.mp hi
  have hfid : f.id = some id := by rwa [Registry.id?, hf, Option.bind_some] at hid
  obtain ⟨shape, hshape, hnames⟩ := hd.functions hf hfid
  exact ⟨id, shape, hid, hshape, hnames⟩

/-- A lowered body that a request needs is there, and all its instructions fit. -/
theorem Sound.exists_body (hs : Sound externals requests unit) {entry : Entry} {request : Request}
    (hr : request ∈ requests) (he : entry ∈ request.plan) (hl : entry.provision = .lowered) :
    ∃ instrs, entry.body = .ok instrs ∧ ∀ instr ∈ instrs, instr.Fitting entry := by
  refine Entry.exists_body hl fun args hop => ?_
  have hargs := hs.arguments hr
  obtain ⟨op, kind⟩ := entry
  cases hop
  rwa [Kind.eq_constructor_of_mem_plan he] at hargs

/-- A call that a body may hold is made in a shape that its function may have. -/
theorem exists_shape_of_fitting {entry : Entry} {request : Request} (hr : request ∈ requests)
    (he : entry ∈ request.plan) {callee : Callee} {params : List Param} {needed : Option String}
    (hfit : (Instr.call callee params needed).Fitting entry) :
    ∃ shape, callee.function.HasShape (usesOf requests) shape ∧ params = shape.params ∧
      (needed.isSome → shape.result.isSome) := by
  have huses : ∀ use ∈ entry.kind.symbolUses, use ∈ usesOf requests := fun use hu =>
    List.mem_append_right _ (List.mem_flatMap.mpr
      ⟨request, hr, (Kind.within_of_mem_requestPlan he).uses hu⟩)
  cases hfit with
  | entry callee hc hn =>
    refine ⟨callee.op.shape, ?_, rfl, hn⟩
    simp only [Callee.function]
    split
    · next symbol hp =>
      exact huses _ ((Entry.within_of_mem_calls hc).uses (Entry.mem_symbolUses_of_provision hp))
    · exact rfl
  | symbol shape hu hn =>
    refine ⟨shape, ?_, rfl, hn⟩
    rcases List.mem_append.mp hu with hu | hu
    · exact List.mem_append_left _ hu
    · exact huses _ hu

/-- A call that a body may hold finds its function, which is declared by its name in a shape that it
may have. -/
theorem resolve_of_fitting (hs : Sound externals requests unit)
    (hd : Declared (usesOf requests) unit)
    (heager : ∀ use ∈ eagerUses, (unit.registry.importedKey? use.1).isSome)
    {entry : Entry} {request : Request} (hr : request ∈ requests) (he : entry ∈ request.plan)
    {callee : Callee} {params : List Param} {needed : Option String}
    (hfit : (Instr.call callee params needed).Fitting entry) :
    ∃ id shape, callee.resolve unit.registry = .ok id ∧
      callee.function.HasShape (usesOf requests) shape ∧
      unit.decls.names[id]? =
        some (callee.function.display, shape.signature targetPointerBytes) := by
  cases hfit with
  | entry callee hc hn =>
    have hcheck := hs.checked hr
    have hargs := hs.arguments hr
    have hproper := Request.proper_of_mem_plan hcheck hargs he
    -- what a body calls is in the plan of the request, and so it was made available
    have hcallee := Request.plan_subset hcheck hargs he (hproper.mem_plan_iff.mpr (.single hc))
    obtain ⟨key, hk⟩ := Option.isSome_iff_exists.mp (hs.available hr hcallee)
    have hname : unit.registry.name? key = some (Callee.entry callee).function := by
      rcases hs.registry.consistent.entry hk with ⟨hl, hn⟩ | ⟨symbol, hp, hn, -⟩
      · rw [hn, Callee.function, hl]
      · rw [hn, Callee.function, hp]
    obtain ⟨id, shape, hid, hshape, hnames⟩ := hd.of_name? hname (hs.registry.entryId hk)
    exact ⟨id, shape, by simp only [Callee.resolve, hk, hid], hshape, hnames⟩
  | @symbol symbol shape needed hu hn =>
    have himported : (unit.registry.importedKey? symbol).isSome := by
      rcases List.mem_append.mp hu with hu | hu
      · exact heager _ hu
      · refine hs.imported hr ((Kind.within_of_mem_requestPlan he).symbols ?_)
        rw [← Kind.map_fst_symbolUses]
        exact List.mem_map_of_mem hu
    obtain ⟨key, hk⟩ := Option.isSome_iff_exists.mp himported
    have hname := hs.registry.consistent.symbol hk
    obtain ⟨id, found, hid, hshape, hnames⟩ := hd.of_name? hname (hs.registry.symbolId hk)
    exact ⟨id, found, by simp only [Callee.resolve, hk, Option.bind_some, hid], hshape, hnames⟩

/-- **Every lowered body** of a unit whose symbols have one shape each can be emitted, and its calls
fit what they call. -/
theorem emit_body (hs : Sound externals requests unit) (hd : Declared (usesOf requests) unit)
    (heager : ∀ use ∈ eagerUses, (unit.registry.importedKey? use.1).isSome)
    (hshape : OneShape (usesOf requests))
    {entry : Entry} {request : Request} (hr : request ∈ requests) (he : entry ∈ request.plan)
    (hl : entry.provision = .lowered) :
    ∃ instrs, entry.body = .ok instrs ∧ Instr.emit unit.registry unit.decls instrs = .ok true := by
  obtain ⟨instrs, hbody, hfit⟩ := hs.exists_body hr he hl
  refine ⟨instrs, hbody, Instr.emit_of_calls hfit fun hm => ?_⟩
  obtain ⟨id, found, hresolve, hfound, hnames⟩ := resolve_of_fitting hs hd heager hr he (hfit _ hm)
  obtain ⟨shape, hused, rfl, hneeded⟩ := exists_shape_of_fitting hr he (hfit _ hm)
  rw [hshape.hasShape_unique hfound hused] at hnames
  exact (Instr.emitOne_call_iff hresolve hnames).mpr (Shape.serves hneeded)

/-! ### Defining the bodies -/

/-- The body of an entry point can be emitted under an identity. -/
def Emits (registry : Registry) (decls : Declarations) (body : Entry × Option Nat) : Prop :=
  ∃ id instrs, body.2 = some id ∧ body.1.body = .ok instrs ∧
    Instr.emit registry decls instrs = .ok true

/-- Bodies that can be emitted are defined one after the other, up to the first whose identity has
a body already. -/
theorem defineBodies_of_emits {registry : Registry} {bodies : List (Entry × Option Nat)} :
    ∀ {decls : Declarations}, (∀ body ∈ bodies, Emits registry decls body) →
      (∃ after, defineBodies registry decls bodies = .ok (.ok after)) ∨
        ∃ before entry id behind, bodies = before ++ (entry, some id) :: behind ∧
          (id ∈ decls.defined ∨ ∃ other, (other, some id) ∈ before) ∧
          defineBodies registry decls bodies =
            .ok (.error (Declarations.duplicate entry.symbolName)) := by
  induction bodies with
  | nil => exact fun _ => .inl ⟨_, rfl⟩
  | cons body rest ih =>
    intro decls h
    obtain ⟨entry, found⟩ := body
    obtain ⟨id, instrs, hid, hbody, hemit⟩ := h _ (List.mem_cons_self ..)
    obtain rfl : found = some id := hid
    have hdefine : defineBody registry decls entry (some id) =
        decls.define id entry.symbolName true := by
      simp only [defineBody, hbody, hemit]
    by_cases hdefined : decls.isDefined id
    · -- a second body is refused
      refine .inr ⟨[], entry, id, rest, rfl, .inl (by simpa [Declarations.isDefined] using hdefined),
        ?_⟩
      simp only [defineBodies, hdefine, Declarations.define, if_pos hdefined]
    · obtain ⟨mid, hmid, hnames, hd⟩ : ∃ mid, decls.define id entry.symbolName true =
          .ok (.ok mid) ∧ mid.names = decls.names ∧ mid.defined = decls.defined ++ [id] := by
        rw [Declarations.define, if_neg hdefined, if_pos rfl]
        exact ⟨_, rfl, rfl, rfl⟩
      have hstep : defineBodies registry decls ((entry, some id) :: rest) =
          defineBodies registry mid rest := by
        simp only [defineBodies, hdefine, hmid]
      have hrest : ∀ body ∈ rest, Emits registry mid body := by
        intro body hm
        obtain ⟨id, instrs, hid, hbody, hemit⟩ := h body (List.mem_cons_of_mem _ hm)
        exact ⟨id, instrs, hid, hbody, (Instr.emit_congr hnames instrs).trans hemit⟩
      rw [hstep]
      refine (ih hrest).imp_right ?_
      rintro ⟨before, second, known, behind, rfl, hknown, hresult⟩
      refine ⟨(entry, some id) :: before, second, known, behind, rfl, ?_, hresult⟩
      -- an identity with a body had it from the start, from this body or from one behind it
      rcases hknown with hknown | ⟨other, ho⟩
      · rw [hd, List.mem_append, List.mem_singleton] at hknown
        rcases hknown with hknown | rfl
        · exact .inl hknown
        · exact .inr ⟨entry, List.mem_cons_self ..⟩
      · exact .inr ⟨other, List.mem_cons_of_mem _ ho⟩

/-- A body that was defined has calls that fit, and defining it declares no name. -/
theorem fits_of_define {decls after : Declarations} {id : Nat} {name : String} {fits : Bool}
    (h : decls.define id name fits = .ok (.ok after)) :
    fits = true ∧ after.names = decls.names := by
  unfold Declarations.define at h
  split at h
  · cases h
  · split at h
    · next hfits => cases h; exact ⟨hfits, rfl⟩
    · split at h <;> cases h

theorem emits_of_defineBody {registry : Registry} {decls after : Declarations} {entry : Entry}
    {id : Option Nat} (h : defineBody registry decls entry id = .ok (.ok after)) :
    Emits registry decls (entry, id) ∧ after.names = decls.names := by
  unfold defineBody at h
  split at h
  · cases h
  · split at h
    · cases h
    · next instrs hbody =>
      split at h
      · cases h
      · next fits hemit =>
        obtain ⟨rfl, hnames⟩ := fits_of_define h
        exact ⟨⟨_, instrs, rfl, hbody, hemit⟩, hnames⟩

/-- Bodies that were all defined can be emitted. -/
theorem emits_of_defineBodies {registry : Registry} {bodies : List (Entry × Option Nat)} :
    ∀ {decls after : Declarations}, defineBodies registry decls bodies = .ok (.ok after) →
      ∀ body ∈ bodies, Emits registry decls body := by
  induction bodies with
  | nil => intro decls after _ body hm; cases hm
  | cons first rest ih =>
    intro decls after h body hm
    rw [defineBodies] at h
    split at h
    · cases h
    · cases h
    · next mid hdefine =>
      obtain ⟨hfirst, hnames⟩ := emits_of_defineBody hdefine
      rcases List.mem_cons.mp hm with rfl | hm
      · exact hfirst
      · obtain ⟨id, instrs, hid, hbody, hemit⟩ := ih h body hm
        exact ⟨id, instrs, hid, hbody, (Instr.emit_congr hnames instrs).symm.trans hemit⟩

/-! ### Names -/

/-- Different entry points have lowered bodies of different names. -/
def DistinctBodies (unit : Compiler) : Prop :=
  ∀ first ∈ unit.registry.lowered.map Prod.fst, ∀ second ∈ unit.registry.lowered.map Prod.fst,
    first ≠ second → first.symbolName ≠ second.symbolName

/-- A lowered body is declared by its name. -/
theorem Declared.of_mem_lowered {uses : List (String × Shape)} (hd : Declared uses unit)
    (hreg : unit.registry.Consistent) {entry : Entry} {id : Nat}
    (h : (entry, some id) ∈ unit.registry.lowered) :
    unit.decls.names[id]? =
      some (entry.symbolName, entry.op.shape.signature targetPointerBytes) := by
  obtain ⟨hl, key, hk, hid⟩ := hreg.mem_lowered_iff.mp h
  rcases hreg.entry hk with ⟨-, hn⟩ | ⟨symbol, hi, -⟩
  · obtain ⟨known, shape, hknown, hshape, hnames⟩ := hd.of_name? hn (by rw [hid]; rfl)
    rw [hid] at hknown
    cases hknown
    cases hshape
    exact hnames
  · rw [hl] at hi
    cases hi

/-- Bodies with one identity have one name. -/
theorem Declared.symbolName_eq {uses : List (String × Shape)} (hd : Declared uses unit)
    (hreg : unit.registry.Consistent) {first second : Entry} {id : Nat}
    (h : (first, some id) ∈ unit.registry.lowered)
    (h' : (second, some id) ∈ unit.registry.lowered) : first.symbolName = second.symbolName := by
  have hfirst := hd.of_mem_lowered hreg h
  rw [hd.of_mem_lowered hreg h'] at hfirst
  exact (congrArg Prod.fst (Option.some.inj hfirst)).symm

/-- Bodies with one name have one identity. -/
theorem Declared.id_eq {uses : List (String × Shape)} (hd : Declared uses unit)
    (hreg : unit.registry.Consistent) {first second : Entry} {id known : Nat}
    (h : (first, some id) ∈ unit.registry.lowered)
    (h' : (second, some known) ∈ unit.registry.lowered)
    (hname : first.symbolName = second.symbolName) : id = known := by
  have hget : ∀ {entry id}, (entry, some id) ∈ unit.registry.lowered →
      (unit.decls.names.map Prod.fst)[id]? = some entry.symbolName := by
    intro entry id hm
    rw [List.getElem?_map, hd.of_mem_lowered hreg hm, Option.map_some]
  have hlt := (List.getElem?_eq_some_iff.mp (hget h)).1
  refine (List.getElem?_inj hlt hd.distinct).mp ?_
  rw [hget h, hget h', hname]

/-! ### Finishing -/

/-- Every lowered body of the unit can be emitted, and nothing is asked of it that it cannot
provide.  Finishing it succeeds exactly if all its bodies have different names, and else reports a
name that two of them bear. -/
structure Finishes (unit : Compiler) (requests : List Request) : Prop where
  emits : ∀ body ∈ unit.registry.lowered, Emits unit.registry unit.decls body
  supported : ∀ {entry}, Needed requests entry → entry.provision ≠ .unsupported
  finish_ok : (∃ compiled, unit.finish = .ok (.ok compiled)) ↔ unit.DistinctBodies
  duplicate : ¬unit.DistinctBodies → ∃ first ∈ unit.registry.lowered.map Prod.fst,
    ∃ second ∈ unit.registry.lowered.map Prod.fst, first ≠ second ∧
      first.symbolName = second.symbolName ∧
      unit.finish = .ok (.error (Declarations.duplicate first.symbolName))

theorem finish_of_failure_none (hf : unit.failure = none) :
    unit.finish = (defineBodies unit.registry unit.decls unit.registry.lowered).map fun result =>
      result.map fun decls => ⟨decls, unit.registry⟩ := by
  rw [finish, hf]

/-- Bodies that were all defined have different names. -/
theorem distinctBodies_of_defineBodies {uses : List (String × Shape)} (hd : Declared uses unit)
    (hreg : unit.registry.Sound) {after : Declarations}
    (h : defineBodies unit.registry unit.decls unit.registry.lowered = .ok (.ok after)) :
    unit.DistinctBodies := by
  obtain ⟨ids, hids, hnodup, -, -⟩ := defineBodies_eq_ok h
  intro first hfirst second hsecond hne hname
  obtain ⟨⟨entry, found⟩, hm, rfl⟩ := List.mem_map.mp hfirst
  obtain ⟨⟨other, found'⟩, hm', rfl⟩ := List.mem_map.mp hsecond
  have hsome : ∀ {body}, body ∈ unit.registry.lowered → ∃ id, body.2 = some id := by
    intro body hm
    have hmem : body.2 ∈ ids.map some := hids ▸ List.mem_map_of_mem hm
    obtain ⟨id, -, hid⟩ := List.mem_map.mp hmem
    exact ⟨id, hid.symm⟩
  obtain ⟨id, rfl⟩ := hsome hm
  obtain ⟨known, rfl⟩ := hsome hm'
  obtain rfl := hd.id_eq hreg.consistent hm hm' hname
  -- no identity stands for two bodies
  have hinj : (unit.registry.lowered.map Prod.snd).Nodup := by
    rw [hids]
    exact hnodup.map fun _ _ h => Option.some.inj h
  have heq := List.inj_on_of_nodup_map hinj hm hm' rfl
  exact hne (congrArg Prod.fst heq)

/-- An identity that is met twice belongs to two entry points whose bodies have one name. -/
theorem exists_same_name {uses : List (String × Shape)} (hd : Declared uses unit)
    (hreg : unit.registry.Consistent) {before behind : List (Entry × Option Nat)} {entry : Entry}
    {id : Nat} (heq : unit.registry.lowered = before ++ (entry, some id) :: behind)
    (hknown : id ∈ unit.decls.defined ∨ ∃ other, (other, some id) ∈ before) :
    ∃ other ∈ unit.registry.lowered.map Prod.fst, entry ∈ unit.registry.lowered.map Prod.fst ∧
      entry ≠ other ∧ entry.symbolName = other.symbolName := by
  obtain ⟨other, ho⟩ := hknown.resolve_left (by rw [hd.defined]; simp)
  have hentry : (entry, some id) ∈ unit.registry.lowered := by rw [heq]; simp
  have hother : (other, some id) ∈ unit.registry.lowered := by rw [heq]; simp [ho]
  refine ⟨other, List.mem_map.mpr ⟨_, hother, rfl⟩, List.mem_map.mpr ⟨_, hentry, rfl⟩, ?_,
    hd.symbolName_eq hreg hentry hother⟩
  -- an entry point that met itself would have two bodies
  rintro rfl
  have hnodup := hreg.nodup_lowered
  rw [heq, List.map_append, List.map_cons] at hnodup
  exact (List.nodup_append.mp hnodup).2.2 _ (List.mem_map.mpr ⟨_, ho, rfl⟩) _
    (List.mem_cons_self ..) rfl

/-- A lowered body can be emitted, if its instructions can. -/
theorem Sound.emits (hs : Sound externals requests unit) {body : Entry × Option Nat}
    (hm : body ∈ unit.registry.lowered)
    (hemit : ∀ {request}, request ∈ requests → body.1 ∈ request.plan →
      body.1.provision = .lowered → ∃ instrs, body.1.body = .ok instrs ∧
        Instr.emit unit.registry unit.decls instrs = .ok true) :
    Emits unit.registry unit.decls body := by
  obtain ⟨entry, found⟩ := body
  obtain ⟨hl, key, hk, rfl⟩ := hs.registry.consistent.mem_lowered_iff.mp hm
  obtain ⟨id, hid⟩ := Option.isSome_iff_exists.mp (hs.registry.entryId hk)
  obtain ⟨request, hr, hp⟩ := hs.planned hk
  obtain ⟨instrs, hbody, hemit⟩ := hemit hr hp hl
  exact ⟨id, instrs, hid, hbody, hemit⟩

theorem emits_of_mem_lowered (hs : Sound externals requests unit)
    (hd : Declared (usesOf requests) unit)
    (heager : ∀ use ∈ eagerUses, (unit.registry.importedKey? use.1).isSome)
    (hshape : OneShape (usesOf requests))
    {body : Entry × Option Nat} (hm : body ∈ unit.registry.lowered) :
    Emits unit.registry unit.decls body :=
  hs.emits hm fun hr hp hl => emit_body hs hd heager hshape hr hp hl

/-- What is needed is in the plan of a request. -/
theorem Sound.exists_plan_iff (hs : Sound externals requests unit) {entry : Entry} :
    (∃ request ∈ requests, entry ∈ request.plan) ↔ Needed requests entry :=
  exists_mem_plan_iff_needed (fun _ hr => hs.checked hr) fun _ hr => hs.arguments hr

/-- What is needed is lowered or imported. -/
theorem Sound.provision_ne_unsupported (hs : Sound externals requests unit) {entry : Entry}
    (hn : Needed requests entry) : entry.provision ≠ .unsupported := by
  intro hu
  obtain ⟨request, hr, hp⟩ := hs.exists_plan_iff.mpr hn
  obtain ⟨key, hk⟩ := Option.isSome_iff_exists.mp (hs.available hr hp)
  rcases hs.registry.consistent.entry hk with ⟨hl, -⟩ | ⟨symbol, hi, -⟩
  · rw [hu] at hl
    cases hl
  · rw [hu] at hi
    cases hi

/-- **A unit that has met its requests** finishes, if no symbol is used in two shapes and none is
the name of a memory primitive: all its bodies can be emitted, and only a name that two bodies bear
keeps it from being finished. -/
theorem finishes_of_meets (options : Options) (externals : List (String × Provider))
    (requests : List Request) (hmeets : (create options externals).Meets requests)
    (hshape : OneShape (symbolUsesOf requests))
    (heager : ∀ use ∈ symbolUsesOf requests,
      use.1 ≠ Intrinsic.alloc.name ∧ use.1 ≠ Intrinsic.free.name) :
    ((create options externals).requestAll requests).Finishes requests := by
  have hf := ((sound_create options externals).meets_iff rfl).mp hmeets
  have hs := sound_requestAll requests [] (fun _ => sound_create options externals) hf
  rw [List.nil_append] at hs
  obtain ⟨hd, hprimitives⟩ := declared_requestAll options externals requests hf
  generalize (create options externals).requestAll requests = unit at hf hs hd hprimitives
  have hreg := hs.registry.consistent
  have hemits : ∀ body ∈ unit.registry.lowered, Emits unit.registry unit.decls body :=
    fun body hm => emits_of_mem_lowered hs hd hprimitives (hshape.usesOf heager) hm
  have hfinish := finish_of_failure_none hf
  have hsupported : ∀ {entry}, Needed requests entry → entry.provision ≠ .unsupported :=
    fun hn => hs.provision_ne_unsupported hn
  rcases defineBodies_of_emits hemits with
    ⟨after, hb⟩ | ⟨before, entry, id, behind, heq, hknown, hb⟩
  · -- all bodies are defined
    have hdistinct := distinctBodies_of_defineBodies hd hs.registry hb
    have hok : unit.finish = .ok (.ok ⟨after, unit.registry⟩) := by rw [hfinish, hb]; rfl
    exact ⟨hemits, hsupported, ⟨fun _ => hdistinct, fun _ => ⟨_, hok⟩⟩, fun h => absurd hdistinct h⟩
  · -- the second body under an identity is refused
    obtain ⟨other, ho, he, hne, hname⟩ := exists_same_name hd hreg heq hknown
    have herror : unit.finish = .ok (.error (Declarations.duplicate entry.symbolName)) := by
      rw [hfinish, hb]; rfl
    refine ⟨hemits, hsupported, ⟨?_, fun h => absurd hname (h _ he _ ho hne)⟩,
      fun _ => ⟨entry, he, other, ho, hne, hname, herror⟩⟩
    rintro ⟨compiled, hok⟩
    rw [herror] at hok
    cases hok

/-- Two generators of one name that yield different types. -/
def twins : List Request :=
  [.iterator (.coroutine "g"),
    .iterator (.generator "g" (.scalar .f64) Intrinsic.generatorResume.name)]

/-- Either of the twins can be had, but not both. -/
theorem finishes_of_meets_twins :
    (create .debug []).Meets twins ∧ OneShape (symbolUsesOf twins) ∧
      ((create .debug []).requestAll twins).Finishes twins ∧
      ((create .debug []).requestAll twins).finish =
        .ok (.error (Declarations.duplicate "getiter.generator[g]")) :=
  ⟨⟨rfl, rfl, trivial⟩, by decide,
    finishes_of_meets _ _ _ ⟨rfl, rfl, trivial⟩ (by decide) (by decide), rfl⟩

end Compiler

end PullIter
