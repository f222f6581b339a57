import PullIter.Proofs.Unit.Requests
import PullIter.Proofs.Unit.Bodies

/-!
# What a unit has declared

Every function of a unit that has an identity is declared under its own name, in the shape of its
operation or in a shape that some requested kind uses its symbol in.  No name is declared twice,
so names and identities determine each other.

## Main definitions

* `Declarations.Extends` — declarations with at least the names of others, and the same bodies.
* `symbolUsesOf`, `usesOf` — the symbols that some requests use, without and with the memory
  primitives, and the shapes that they are used in.
* `Compiler.Declared` — the functions of a unit are declared.

## Main results

* `Declared.importUse`, `Declared.ensure` — every part of a request keeps the functions declared.
* `declared_requestAll` — the functions of a unit that has not failed are declared.
-/

namespace PullIter

/-! ### Names -/

namespace Declarations

/-- The second declarations know the names of the first by the same identities, and have given no
name a body. -/
structure Extends (before after : Declarations) : Prop where
  names : before.names <+: after.names
  defined : after.defined = before.defined

theorem Extends.getElem? {before after : Declarations} (h : before.Extends after) {id : Nat}
    {declared : String × Signature} (hd : before.names[id]? = some declared) :
    after.names[id]? = some declared := by
  obtain ⟨more, hm⟩ := h.names
  rw [← hm, List.getElem?_append_left (List.getElem?_eq_some_iff.mp hd).1, hd]

/-- The identity and the signature that are looked up belong to one declaration. -/
theorem getElem?_of_lookup {name : String} {signature : Signature} :
    ∀ {names : List (String × Signature)} {id : Nat},
      (names.findIdx? fun declared => declared.1 == name) = some id →
      names.lookup name = some signature → names[id]? = some (name, signature)
  | (other, found) :: rest, id, hid, hs => by
    rw [List.findIdx?_cons] at hid
    rw [List.lookup_cons] at hs
    by_cases hname : other = name
    · subst hname
      simp only [beq_self_eq_true, if_true, Option.some.injEq] at hid hs
      rw [← hid, hs]
      rfl
    · have hb : (other == name) = false := by simpa using hname
      have hb' : (name == other) = false := by simpa using Ne.symm hname
      simp only [hb, Bool.false_eq_true, if_false, Option.map_eq_some_iff] at hid
      obtain ⟨id, hid, rfl⟩ := hid
      rw [hb'] at hs
      rw [List.getElem?_cons_succ]
      exact getElem?_of_lookup hid hs

/-- What declaring a name leaves: the name has the identity that is answered, in that signature,
and no name is declared twice. -/
structure Names (before after : Declarations) (name : String) (signature : Signature) (id : Nat) :
    Prop where
  grows : before.Extends after
  found : after.names[id]? = some (name, signature)
  distinct : (before.names.map Prod.fst).Nodup → (after.names.map Prod.fst).Nodup

theorem declareName_eq_ok {decls after : Declarations} {name : String} {signature : Signature}
    {id : Nat} (h : decls.declareName name signature = .ok (id, after)) :
    decls.Names after name signature id ∧ after.imported = decls.imported := by
  unfold declareName at h
  split at h
  · next known hid =>
    split at h
    · next hs =>
      cases h
      exact ⟨⟨⟨List.prefix_rfl, rfl⟩, getElem?_of_lookup hid hs, fun hd => hd⟩, rfl⟩
    · cases h
  · next hid =>
    cases h
    refine ⟨⟨⟨List.prefix_append .., rfl⟩, by simp, fun hd => ?_⟩, rfl⟩
    rw [List.map_append, List.nodup_append]
    refine ⟨hd, by simp, ?_⟩
    intro other ho new hn heq
    obtain ⟨declared, hm, rfl⟩ := List.mem_map.mp ho
    have hne := List.findIdx?_eq_none_iff.mp hid declared hm
    simp_all

theorem declare_eq_ok {decls after : Declarations} {name : String} {signature : Signature}
    {id : Nat} (h : decls.declare name signature = .ok (id, after)) :
    decls.Names after name signature id ∧ after.imported = decls.imported := by
  unfold declare at h
  split at h
  · next hd =>
    obtain ⟨hnames, himported⟩ := declareName_eq_ok hd
    cases h
    exact ⟨⟨⟨hnames.grows.names, hnames.grows.defined⟩, hnames.found, hnames.distinct⟩, himported⟩
  · cases h

theorem lookup_singleton {α : Type} (name other : String) (value : α) :
    [(name, value)].lookup other = if other = name then some value else none := by
  by_cases hname : other = name
  · simp [hname]
  · have hb : (other == name) = false := by simpa using hname
    simp [List.lookup_cons, hb, hname]

/-- A table that has a name noted finds what it found before, and else the name. -/
theorem lookup_note (table : List (String × Nat)) (name other : String) (id : Nat) :
    (note table name id).lookup other =
      (table.lookup other).or (if other = name then some id else none) := by
  unfold note
  split
  · next hs =>
    by_cases hname : other = name
    · subst hname
      obtain ⟨known, hknown⟩ := Option.isSome_iff_exists.mp hs
      rw [hknown, Option.some_or]
    · rw [if_neg hname, Option.or_none]
  · rw [List.lookup_append, lookup_singleton]

/-- What is found once a name is noted was there, or it is the name. -/
theorem of_lookup_note {table : List (String × Nat)} {name other : String} {id known : Nat}
    (h : (note table name id).lookup other = some known) :
    table.lookup other = some known ∨ (other = name ∧ known = id) := by
  rw [lookup_note, Option.or_eq_some_iff] at h
  refine h.imp_right fun ⟨_, hself⟩ => ?_
  split at hself
  · next hname => exact ⟨hname, (Option.some.inj hself).symm⟩
  · cases hself

/-- A symbol that is imported is declared in the given signature, unless it was imported before. -/
theorem importSymbol_eq_ok {decls after : Declarations} {name : String} {signature : Signature}
    {id : Nat} (h : decls.importSymbol name signature = .ok (id, after)) :
    (decls.imported.lookup name = some id ∧ after = decls) ∨
      (decls.imported.lookup name = none ∧ decls.Names after name signature id ∧
        after.imported = note decls.imported name id) := by
  unfold importSymbol at h
  split at h
  · next hid => cases h; exact .inl ⟨hid, rfl⟩
  · next hnone =>
    split at h
    · split at h
      · next hd =>
        obtain ⟨hnames, himported⟩ := declareName_eq_ok hd
        cases h
        exact .inr ⟨hnone, ⟨⟨hnames.grows.names, hnames.grows.defined⟩, hnames.found,
          hnames.distinct⟩, by rw [himported]⟩
      · cases h
    · cases h

end Declarations

/-! ### Functions -/

namespace Registry

theorem getElem?_add (registry : Registry) (name : FunctionName) {key : Nat} {f : FunctionRecord}
    (h : (registry.add name).functions[key]? = some f) :
    registry.functions[key]? = some f ∨ (key = registry.nextKey ∧ f = ⟨name, none⟩) := by
  unfold add at h
  rw [List.getElem?_append] at h
  split at h
  · exact .inl h
  · next hlt =>
    right
    obtain ⟨hk, hf⟩ := List.getElem?_eq_some_iff.mp h
    simp only [List.length_singleton] at hk
    refine ⟨by unfold nextKey; omega, ?_⟩
    rw [← hf]
    simp

theorem getElem?_internImported (registry : Registry) (symbol : String) {key : Nat}
    {f : FunctionRecord} (h : (registry.internImported symbol).2.functions[key]? = some f) :
    registry.functions[key]? = some f ∨ f.id = none := by
  unfold internImported at h
  split at h
  · exact .inl h
  · exact (getElem?_add registry _ h).imp_right fun ⟨_, hf⟩ => by rw [hf]

theorem getElem?_internLowered (registry : Registry) (entry : Entry) {key : Nat}
    {f : FunctionRecord} (h : (registry.internLowered entry).2.functions[key]? = some f) :
    registry.functions[key]? = some f ∨ f.id = none := by
  unfold internLowered at h
  split at h
  · exact .inl h
  · exact (getElem?_add registry _ h).imp_right fun ⟨_, hf⟩ => by rw [hf]

/-- A function whose identity is noted keeps its name, and no other function changes. -/
theorem getElem?_setId {registry : Registry} {key other id : Nat} {f : FunctionRecord}
    (h : (registry.setId key id).functions[other]? = some f) :
    registry.functions[other]? = some f ∨
      (other = key ∧ f.id = some id ∧ registry.name? key = some f.name) := by
  unfold setId at h
  rw [List.getElem?_modify] at h
  obtain ⟨old, hold, rfl⟩ := Option.map_eq_some_iff.mp h
  by_cases hk : key = other
  · subst hk
    rw [if_pos rfl]
    exact .inr ⟨rfl, rfl, by rw [name?, hold]; rfl⟩
  · rw [if_neg hk]
    exact .inl hold

end Registry

/-! ### Declared functions -/

/-- The symbols of the kinds that are requested, with the shapes they are used in. -/
def symbolUsesOf (requests : List Request) : List (String × Shape) :=
  requests.flatMap fun request => request.kind.symbolUses

/-- The same, with the memory primitives. -/
def usesOf (requests : List Request) : List (String × Shape) := eagerUses ++ symbolUsesOf requests

/-- A function may be declared in a shape: that of its operation, or one that its symbol is used
in. -/
def FunctionName.HasShape (uses : List (String × Shape)) : FunctionName → Shape → Prop
  | lowered entry, shape => shape = entry.op.shape
  | imported symbol, shape => (symbol, shape) ∈ uses

theorem FunctionName.HasShape.mono {uses more : List (String × Shape)} (h : uses ⊆ more)
    {name : FunctionName} {shape : Shape} (hs : name.HasShape uses shape) :
    name.HasShape more shape := by
  cases name with
  | lowered entry => exact hs
  | imported symbol => exact h hs

namespace Compiler

/-- No name is declared twice, every function with an identity is declared by its name in a shape
that it may have, and no name has a body yet. -/
structure Declared (uses : List (String × Shape)) (unit : Compiler) : Prop where
  distinct : (unit.decls.names.map Prod.fst).Nodup
  functions : ∀ {key id : Nat} {f : FunctionRecord},
    unit.registry.functions[key]? = some f → f.id = some id → ∃ shape, f.name.HasShape uses shape ∧
      unit.decls.names[id]? = some (f.name.display, shape.signature targetPointerBytes)
  imported : ∀ {symbol id}, unit.decls.imported.lookup symbol = some id →
    ∃ shape, (symbol, shape) ∈ uses ∧
      unit.decls.names[id]? = some (symbol, shape.signature targetPointerBytes)
  defined : unit.decls.defined = []

theorem Declared.mono {uses more : List (String × Shape)} {unit : Compiler}
    (h : Declared uses unit) (hsub : uses ⊆ more) : Declared more unit := by
  refine ⟨h.distinct, fun hf hid => ?_, fun hs => ?_, h.defined⟩
  · obtain ⟨shape, hshape, hd⟩ := h.functions hf hid
    exact ⟨shape, hshape.mono hsub, hd⟩
  · obtain ⟨shape, hshape, hd⟩ := h.imported hs
    exact ⟨shape, hsub hshape, hd⟩

/-- A function that gets the identity of its name is declared, if the others were. -/
theorem Declared.setId {uses : List (String × Shape)} {unit : Compiler} {decls : Declarations}
    {registry : Registry} {key id : Nat} {name : FunctionName} (h : Declared uses unit)
    (hgrows : unit.decls.Extends decls) (hdistinct : (decls.names.map Prod.fst).Nodup)
    (hold : ∀ {key : Nat} {f : FunctionRecord}, registry.functions[key]? = some f →
      unit.registry.functions[key]? = some f ∨ f.id = none)
    (hname : registry.name? key = some name)
    (hfound : ∃ shape, name.HasShape uses shape ∧
      decls.names[id]? = some (name.display, shape.signature targetPointerBytes))
    (himported : ∀ {symbol id}, decls.imported.lookup symbol = some id →
      ∃ shape, (symbol, shape) ∈ uses ∧
        decls.names[id]? = some (symbol, shape.signature targetPointerBytes)) :
    Declared uses { unit with decls := decls, registry := registry.setId key id } := by
  refine ⟨hdistinct, fun {other f known} hf hid => ?_, himported, ?_⟩
  · rcases Registry.getElem?_setId hf with hf | ⟨rfl, hf, hn⟩
    · rcases hold hf with hf | hnone
      · obtain ⟨shape, hshape, hd⟩ := h.functions hf hid
        exact ⟨shape, hshape, hgrows.getElem? hd⟩
      · rw [hnone] at hid
        cases hid
    · rw [hf] at hid
      cases hid
      rw [hname] at hn
      cases hn
      exact hfound
  · rw [← h.defined]
    exact hgrows.defined

theorem Declared.importUse {uses : List (String × Shape)} {unit after : Compiler} {symbol : String}
    {shape : Shape} (h : Declared uses unit) (hreg : unit.registry.Consistent)
    (hu : (symbol, shape) ∈ uses) (ha : unit.importUse symbol shape = .ok after) :
    Declared uses after := by
  obtain ⟨decls, id, hd, rfl⟩ := importUse_eq_ok ha
  have hname := hreg.name?_internImported symbol
  have hold := @Registry.getElem?_internImported unit.registry symbol
  rcases Declarations.importSymbol_eq_ok hd with ⟨hid, rfl⟩ | ⟨-, hnames, himported⟩
  · -- a symbol that was imported before keeps the shape it has
    exact h.setId ⟨List.prefix_rfl, rfl⟩ h.distinct hold hname (h.imported hid) h.imported
  · refine h.setId hnames.grows (hnames.distinct h.distinct) hold hname
      ⟨shape, hu, hnames.found⟩ fun hs => ?_
    rw [himported] at hs
    rcases Declarations.of_lookup_note hs with hs | ⟨rfl, rfl⟩
    · obtain ⟨found, hf, hd⟩ := h.imported hs
      exact ⟨found, hf, hnames.grows.getElem? hd⟩
    · exact ⟨shape, hu, hnames.found⟩

theorem Declared.importUses {uses : List (String × Shape)} {more : List (String × Shape)} :
    ∀ {unit after : Compiler}, Declared uses unit → unit.registry.Sound → more ⊆ uses →
      unit.importUses more = .ok after → Declared uses after := by
  induction more with
  | nil => intro unit after h _ _ ha; cases ha; exact h
  | cons use rest ih =>
    intro unit after h hreg hsub ha
    rw [Compiler.importUses] at ha
    split at ha
    · cases ha
    · next mid hm =>
      have hmid := h.importUse hreg.consistent (hsub (List.mem_cons_self ..)) hm
      refine ih hmid ?_ (fun _ hu => hsub (List.mem_cons_of_mem _ hu)) ha
      obtain ⟨decls, id, -, rfl⟩ := importUse_eq_ok hm
      exact hreg.importSymbol use.1 id

/-- The name of the key that a lowered body is interned under. -/
theorem name?_internLowered {registry : Registry} (h : registry.Consistent) {entry : Entry}
    (hl : entry.provision = .lowered) : (registry.internLowered entry).2.name?
      (registry.internLowered entry).1 = some (.lowered entry) := by
  have hk := Registry.entryKey?_internLowered registry entry
  rcases (h.internLowered hl).entry hk with ⟨-, hn⟩ | ⟨symbol, hi, -⟩
  · exact hn
  · rw [hl] at hi
    cases hi

theorem Declared.ensure {uses : List (String × Shape)} {unit after : Compiler} {entry : Entry}
    (h : Declared uses unit) (hreg : unit.registry.Consistent)
    (ha : unit.ensure entry = .ok after) : Declared uses after := by
  obtain ⟨-, rfl⟩ | ⟨hl, decls, id, hd, rfl⟩ | ⟨symbol, known, -, hk, rfl⟩ := ensure_eq_ok ha
  · exact h
  · obtain ⟨hnames, himported⟩ := Declarations.declare_eq_ok hd
    refine h.setId hnames.grows (hnames.distinct h.distinct)
      (@Registry.getElem?_internLowered unit.registry entry) (name?_internLowered hreg hl)
      ⟨_, rfl, hnames.found⟩ fun hs => ?_
    rw [himported] at hs
    obtain ⟨found, hf, hd⟩ := h.imported hs
    exact ⟨found, hf, hnames.grows.getElem? hd⟩
  · have hsame := internImported_of_some hk
    have hfunctions : (unit.registry.bindImported entry symbol).2.functions =
        unit.registry.functions := by
      rw [Registry.bindImported, hsame]
    exact ⟨h.distinct, fun hf hid => h.functions (hfunctions ▸ hf) hid, h.imported, h.defined⟩

theorem Declared.ensureAll {uses : List (String × Shape)} {entries : List Entry} :
    ∀ {unit after : Compiler}, Declared uses unit → unit.registry.Sound →
      unit.ensureAll entries = .ok after → Declared uses after := by
  induction entries with
  | nil => intro unit after h _ ha; cases ha; exact h
  | cons entry rest ih =>
    intro unit after h hreg ha
    rw [Compiler.ensureAll] at ha
    split at ha
    · cases ha
    · next mid hm =>
      exact ih (h.ensure hreg.consistent hm) ((adds_ensure hm).sound hreg) ha

theorem usesOf_append (first second : List Request) :
    usesOf (first ++ second) = usesOf first ++ symbolUsesOf second := by
  rw [usesOf, usesOf, symbolUsesOf, List.flatMap_append, List.append_assoc]
  rfl

theorem Declared.attempt {externals : List (String × Provider)} {requests : List Request}
    {unit after : Compiler} {request : Request} (h : Declared (usesOf requests) unit)
    (hs : Sound externals requests unit) (ha : unit.attempt request = .ok after) :
    Declared (usesOf (requests ++ [request])) after := by
  obtain ⟨-, -, hsymbols, mid, huses, hplan⟩ := hs.attempt_eq_ok ha
  have hunit : Declared (usesOf (requests ++ [request])) unit :=
    h.mono (by rw [usesOf_append]; exact List.subset_append_left ..)
  have hsub : request.kind.symbolUses ⊆ usesOf (requests ++ [request]) := by
    intro use hu
    rw [usesOf_append]
    exact List.mem_append_right _ (List.mem_flatMap.mpr ⟨request, by simp, hu⟩)
  have hmid := hunit.importUses hs.registry hsub huses
  exact hmid.ensureAll (hs.importUses hsymbols huses).1 hplan

theorem Sound.grows_attempt {externals : List (String × Provider)} {requests : List Request}
    {unit after : Compiler} {request : Request} (hs : Sound externals requests unit)
    (ha : unit.attempt request = .ok after) : unit.Grows after := by
  obtain ⟨-, -, -, mid, huses, hplan⟩ := hs.attempt_eq_ok ha
  exact (grows_importUses huses).trans (addsAll_ensureAll hplan).grows

theorem declared_create (options : Options) (externals : List (String × Provider)) :
    Declared (usesOf []) (create options externals) := by
  have halloc : (Intrinsic.alloc.name, Shape.alloc) ∈ usesOf [] :=
    List.mem_append_left _ (mem_eagerUses.mpr (.inl rfl))
  have hfree : (Intrinsic.free.name, Shape.free) ∈ usesOf [] :=
    List.mem_append_left _ (mem_eagerUses.mpr (.inr rfl))
  have hdistinct : [Intrinsic.alloc.name, Intrinsic.free.name].Nodup := by decide
  refine ⟨hdistinct, fun {key id f} hf hid => ?_, fun {symbol id} hs => ?_, rfl⟩
  · have hget : [(⟨.imported Intrinsic.alloc.name, some 0⟩ : FunctionRecord),
        ⟨.imported Intrinsic.free.name, some 1⟩][key]? = some f := hf
    match key with
    | 0 => cases hget; cases hid; exact ⟨_, halloc, rfl⟩
    | 1 => cases hget; cases hid; exact ⟨_, hfree, rfl⟩
    | key + 2 => cases hget
  · have hfind : [(Intrinsic.alloc.name, 0), (Intrinsic.free.name, 1)].lookup symbol = some id := hs
    by_cases ha : symbol = Intrinsic.alloc.name
    · subst ha
      cases hfind
      exact ⟨_, halloc, rfl⟩
    by_cases hf : symbol = Intrinsic.free.name
    · subst hf
      cases hfind
      exact ⟨_, hfree, rfl⟩
    have hb : (symbol == Intrinsic.alloc.name) = false := by simpa using ha
    have hb' : (symbol == Intrinsic.free.name) = false := by simpa using hf
    simp [List.lookup_cons, hb, hb'] at hfind

/-- **The functions of a unit that has not failed** are declared, each by its own name, and the
memory primitives are among them. -/
theorem declared_requestAll (options : Options) (externals : List (String × Provider))
    (requests : List Request)
    (hf : ((create options externals).requestAll requests).failure = none) :
    Declared (usesOf requests) ((create options externals).requestAll requests) ∧
      ∀ use ∈ eagerUses,
        (((create options externals).requestAll requests).registry.importedKey? use.1).isSome := by
  have hstart : ∀ use ∈ eagerUses,
      ((create options externals).registry.importedKey? use.1).isSome := by
    intro use hu
    rcases mem_eagerUses.mp hu with rfl | rfl <;> rfl
  refine (@requestAll_induction (fun done unit => Sound externals done unit ∧
    Declared (usesOf done) unit ∧
      ∀ use ∈ eagerUses, (unit.registry.importedKey? use.1).isSome) ?_ requests [] _
    (fun _ => ⟨sound_create options externals, declared_create options externals, hstart⟩) hf).2
  rintro done unit request after ⟨hs, hd, he⟩ ha
  exact ⟨(hs.attempt ha).1, hd.attempt hs ha,
    fun use hu => (hs.grows_attempt ha).symbol (he use hu)⟩

end Compiler

end PullIter
