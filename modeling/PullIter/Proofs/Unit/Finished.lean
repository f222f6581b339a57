import PullIter.Proofs.Unit.Plan
import PullIter.Proofs.Unit.Requests

/-!
# What a finished unit provides

A unit that could be finished has met all its requests.  Its entry points are those of the
plans of its requests, each is provided as its kind says, and every symbol of a requested kind
is linked.

## Main definitions

* `Compiled.Finished` — a unit that was finished after some requests.
* `Compiled.Hygienic` — no imported symbol bears the name of a lowered body.
* `Compiled.Provides` — the code that provides an entry point.

## Main results

* `Finished.provides` — the code of an available entry point.
* `Finished.available` — the entry points of the plan of a request are available.
* `Finished.linked` — the symbols of the kind of an available entry point are linked.
* `Finished.release_of_getiter`, `Finished.release_of_construct` — what is made can be released.
-/

namespace PullIter

/-- A unit that could be finished had not failed, and all its bodies were defined. -/
theorem Compiler.finish_eq_ok {unit : Compiler} {compiled : Compiled}
    (h : unit.finish = .ok (.ok compiled)) : unit.failure = none ∧ ∃ decls,
      defineBodies unit.registry unit.decls unit.registry.lowered = .ok (.ok decls) ∧
        compiled = ⟨decls, unit.registry⟩ := by
  unfold finish at h
  split at h
  · cases h
  · next hf =>
    refine ⟨hf, ?_⟩
    cases hb : defineBodies unit.registry unit.decls unit.registry.lowered with
    | error fault => rw [hb] at h; cases h
    | ok result =>
      rw [hb] at h
      cases result with
      | error e => cases h
      | ok decls => cases h; exact ⟨decls, rfl, rfl⟩

namespace Compiled

/-- The unit was finished after some requests. -/
def Finished (unit : Compiled) (options : Options) (externals : List (String × Provider))
    (requests : List Request) : Prop :=
  ((Compiler.create options externals).requestAll requests).finish = .ok (.ok unit)

/-- No symbol that the unit imports bears the name of one of its lowered bodies. -/
def Hygienic (unit : Compiled) : Prop :=
  ∀ lowered ∈ unit.registry.lowered, unit.registry.importedKey? lowered.1.symbolName = none

/-- The code that provides an entry point: its own body, or what its symbol is linked to. -/
def Provides (unit : Compiled) (entry : Entry) (code : Code) : Prop :=
  (entry.provision = .lowered ∧ code = .body entry) ∨
    ∃ symbol provider, entry.provision = .imported symbol ∧
      unit.decls.provider? symbol = some provider ∧ code = .provided provider

variable {unit : Compiled} {options : Options} {externals : List (String × Provider)}
  {requests : List Request}

namespace Finished

/-! ### What finishing keeps -/

theorem linkable_of_define {decls after : Declarations} {id : Nat} {name : String} {fits : Bool}
    (h : decls.define id name fits = .ok (.ok after)) : after.linkable = decls.linkable := by
  unfold Declarations.define at h
  split at h
  · cases h
  · split at h
    · cases h; rfl
    · split at h <;> cases h

theorem linkable_of_defineBodies {registry : Registry} {bodies : List (Entry × Option Nat)} :
    ∀ {decls after : Declarations},
      Compiler.defineBodies registry decls bodies = .ok (.ok after) →
      after.linkable = decls.linkable := by
  induction bodies with
  | nil => intro decls after h; cases h; rfl
  | cons body rest ih =>
    intro decls after h
    rw [Compiler.defineBodies] at h
    split at h
    · cases h
    · cases h
    · next mid hd =>
      have hmid : mid.linkable = decls.linkable := by
        unfold Compiler.defineBody at hd
        split at hd
        · cases hd
        · split at hd
          · cases hd
          · split at hd
            · cases hd
            · exact linkable_of_define hd
      exact (ih h).trans hmid

/-- The unit that was finished had met all its requests, and finishing keeps what it had
registered and what it can link. -/
theorem sound (h : unit.Finished options externals requests) :
    ∃ compiler, Compiler.Sound externals requests compiler ∧ unit.registry = compiler.registry ∧
      unit.decls.linkable = compiler.decls.linkable := by
  obtain ⟨hf, decls, hb, rfl⟩ := Compiler.finish_eq_ok h
  have hsound := Compiler.sound_requestAll requests []
    (fun _ => Compiler.sound_create options externals) hf
  rw [List.nil_append] at hsound
  exact ⟨_, hsound, rfl, linkable_of_defineBodies hb⟩

theorem linkable (h : unit.Finished options externals requests) :
    unit.decls.linkable = externals.reverse ++ Provider.ofIntrinsics := by
  obtain ⟨compiler, hs, -, hl⟩ := h.sound
  rw [hl, hs.linkable]

theorem consistent (h : unit.Finished options externals requests) : unit.registry.Consistent := by
  obtain ⟨compiler, hs, hr, -⟩ := h.sound
  rw [hr]
  exact hs.registry.consistent

/-! ### Entry points -/

/-- **The code of an available entry point** is what provides it. -/
theorem provides (h : unit.Finished options externals requests) {entry : Entry} {code : Code}
    (hc : unit.entryCode entry = .ok code) : unit.Provides entry code := by
  unfold Compiled.entryCode at hc
  split at hc
  · cases hc
  · next key hk =>
    rcases h.consistent.entry hk with ⟨hl, hn⟩ | ⟨symbol, hi, hn, -⟩
    · left
      simp only [hn] at hc
      split at hc
      · cases hc; exact ⟨hl, rfl⟩
      · cases hc
    · right
      simp only [hn] at hc
      split at hc
      · next provider hp => cases hc; exact ⟨symbol, provider, hi, hp, rfl⟩
      · cases hc

/-- An available entry point belongs to the plan of a request. -/
theorem planned (h : unit.Finished options externals requests) {entry : Entry} {code : Code}
    (hc : unit.entryCode entry = .ok code) : ∃ request ∈ requests, entry ∈ request.plan := by
  obtain ⟨compiler, hs, hr, -⟩ := h.sound
  unfold Compiled.entryCode at hc
  split at hc
  · cases hc
  · next key hk =>
    rw [hr] at hk
    exact hs.planned hk

/-- **The entry points of the plan of a request** are available. -/
theorem available (h : unit.Finished options externals requests) {request : Request}
    (hr : request ∈ requests) {entry : Entry} (he : entry ∈ request.plan) :
    ∃ code, unit.entryCode entry = .ok code := by
  obtain ⟨compiler, hs, hreg, hl⟩ := h.sound
  obtain ⟨key, hk⟩ := Option.isSome_iff_exists.mp (hs.available hr he)
  have hcons := hs.registry.consistent
  unfold Compiled.entryCode
  rw [hreg, hk]
  rcases hcons.entry hk with ⟨-, hn⟩ | ⟨symbol, -, hn, hsym⟩
  · obtain ⟨id, hid⟩ := Option.isSome_iff_exists.mp (hs.registry.entryId hk)
    simp only [hn, hid]
    exact ⟨_, rfl⟩
  · have hlinked := hs.linked hsym
    unfold Declarations.hasSymbol at hlinked
    obtain ⟨provider, hp⟩ := Option.isSome_iff_exists.mp hlinked
    have hp' : unit.decls.provider? symbol = some provider := by
      unfold Declarations.provider? at hp ⊢
      rw [hl, hp]
    simp only [hn, hp']
    exact ⟨_, rfl⟩

/-- The kind of an available entry point is right. -/
theorem check (h : unit.Finished options externals requests) {entry : Entry} {code : Code}
    (hc : unit.entryCode entry = .ok code) : entry.kind.check = .ok () := by
  obtain ⟨request, hr, hp⟩ := h.planned hc
  obtain ⟨compiler, hs, -, -⟩ := h.sound
  exact (Kind.within_of_mem_requestPlan hp).check (hs.checked hr)

/-- **Every symbol of the kind of an available entry point** is imported and linked. -/
theorem linked (h : unit.Finished options externals requests) {entry : Entry} {code : Code}
    (hc : unit.entryCode entry = .ok code) {symbol : String} (hsym : symbol ∈ entry.kind.symbols) :
    (unit.registry.importedKey? symbol).isSome ∧ ∃ provider,
      unit.decls.provider? symbol = some provider := by
  obtain ⟨request, hr, hp⟩ := h.planned hc
  obtain ⟨compiler, hs, hreg, hl⟩ := h.sound
  have himp := hs.imported hr ((Kind.within_of_mem_requestPlan hp).symbols hsym)
  obtain ⟨key, hk⟩ := Option.isSome_iff_exists.mp himp
  have hlinked := hs.linked hk
  unfold Declarations.hasSymbol at hlinked
  refine ⟨by rw [hreg]; exact himp, ?_⟩
  unfold Declarations.provider? at hlinked ⊢
  rw [hl]
  exact Option.isSome_iff_exists.mp hlinked

/-- The arguments of an available constructor are right. -/
theorem arguments (h : unit.Finished options externals requests) {kind : Kind} {args : List Scalar}
    {code : Code} (hc : unit.entryCode ⟨.construct args, kind⟩ = .ok code) :
    kind.checkConstructor args = .ok () := by
  obtain ⟨request, hr, hp⟩ := h.planned hc
  obtain ⟨compiler, hs, -, -⟩ := h.sound
  rw [Kind.eq_constructor_of_mem_plan hp] at hr
  exact hs.arguments hr

/-! ### What is made can be released -/

/-- Where an iterator can be made, it can be advanced. -/
theorem iternext_of_getiter (h : unit.Finished options externals requests) {kind : Kind}
    {code : Code} (hc : unit.entryCode ⟨.getiter, kind⟩ = .ok code) :
    ∃ code, unit.entryCode ⟨.iternext, kind.iteratorKind⟩ = .ok code := by
  have hcheck : kind.check = .ok () := h.check hc
  obtain ⟨request, hr, hp⟩ := h.planned hc
  rw [Kind.eq_iterator_of_mem_plan hp] at hr
  refine h.available hr (List.mem_flatMap.mpr ⟨⟨.iternext, kind.iteratorKind⟩, ?_, ?_⟩)
  · exact List.mem_cons_of_mem _ (List.mem_cons_self ..)
  · exact Kind.self_mem_plan_iteratorKind hcheck

/-- Where an iterator can be made, it can be released if it has to be. -/
theorem release_of_getiter (h : unit.Finished options externals requests) {kind : Kind}
    {code : Code} (hc : unit.entryCode ⟨.getiter, kind⟩ = .ok code)
    (hr : kind.releasesMade = true) :
    ∃ code, unit.entryCode ⟨.release, kind.iteratorKind⟩ = .ok code := by
  obtain ⟨request, hreq, hp⟩ := h.planned hc
  rw [Kind.eq_iterator_of_mem_plan hp] at hreq
  refine h.available hreq (List.mem_flatMap.mpr ⟨⟨.release, kind.iteratorKind⟩, ?_, ?_⟩)
  · rw [Request.seeds_iterator, Entry.sourceRelease, if_pos hr]
    refine List.mem_cons_of_mem _ (List.mem_cons_of_mem _ ?_)
    exact List.mem_cons_self ..
  · exact List.mem_cons_self ..

/-- Where a combinator can be made, it can be released. -/
theorem release_of_construct (h : unit.Finished options externals requests) {kind : Kind}
    {args : List Scalar} {code : Code}
    (hc : unit.entryCode ⟨.construct args, kind⟩ = .ok code) (hn : kind.needsRelease = true) :
    ∃ code, unit.entryCode ⟨.release, kind⟩ = .ok code := by
  obtain ⟨request, hreq, hp⟩ := h.planned hc
  rw [Kind.eq_constructor_of_mem_plan hp] at hreq
  refine h.available hreq (List.mem_flatMap.mpr ⟨⟨.release, kind⟩, ?_, ?_⟩)
  · refine List.mem_cons_of_mem _ (List.mem_cons_of_mem _ ?_)
    rw [if_pos hn]
    exact List.mem_cons_self ..
  · exact List.mem_cons_self ..

end Finished

end Compiled

end PullIter
