import PullIter.Proofs.Exec.Linking
import PullIter.Proofs.Unit.Finishing

/-!
# Symbols that bear the name of a body

A symbol is linked to the code that was registered last under its name, and this is what the host
gets for an entry point that is bound to the symbol.  A lowered body that calls the symbol gets the
same code, unless some lowered body of the unit bears the name of the symbol.  Then it gets that
body, whatever was registered.

## Main definitions

* `LastRegistered` — the code that was registered last under a name.

## Main results

* `Finished.provider?_eq_some_iff` — what a symbol is linked to.
* `Finished.call_eq_last_registered_iff` — **which calls run the code that was registered last.**
-/

namespace PullIter

/-- The code that was registered last under a name: that of the last external symbol of the name, or
the built-in one if there is none. -/
inductive LastRegistered (externals : List (String × Provider)) (symbol : String) :
    Provider → Prop
  | external {before after : List (String × Provider)} {provider : Provider}
      (heq : externals = before ++ (symbol, provider) :: after)
      (last : ∀ other ∈ after, other.1 ≠ symbol) : LastRegistered externals symbol provider
  | builtIn {routine : Intrinsic} (none : ∀ other ∈ externals, other.1 ≠ symbol)
      (heq : symbol = routine.name) : LastRegistered externals symbol (.intrinsic routine)

/-- A built-in symbol is looked up by its name. -/
theorem Provider.lookup_ofIntrinsics_eq_some_iff {symbol : String} {provider : Provider} :
    Provider.ofIntrinsics.lookup symbol = some provider ↔
      ∃ routine : Intrinsic, symbol = routine.name ∧ provider = .intrinsic routine := by
  constructor
  · intro h
    obtain ⟨before, after, heq, -⟩ := List.lookup_eq_some_iff.mp h
    have hm : (symbol, provider) ∈ Provider.ofIntrinsics := by rw [heq]; simp
    obtain ⟨routine, -, hroutine⟩ := List.mem_map.mp hm
    cases hroutine
    exact ⟨routine, rfl, rfl⟩
  · rintro ⟨routine, rfl, rfl⟩
    cases routine <;> rfl

namespace Compiled

variable {unit : Compiled} {options : Options} {externals : List (String × Provider)}
  {requests : List Request}

namespace Finished

/-- **What a symbol is linked to** is what was registered last under its name. -/
theorem provider?_eq_some_iff (h : unit.Finished options externals requests) {symbol : String}
    {provider : Provider} :
    unit.decls.provider? symbol = some provider ↔ LastRegistered externals symbol provider := by
  rw [Declarations.provider?, h.linkable, List.lookup_append]
  constructor
  · intro hp
    cases he : externals.reverse.lookup symbol with
    | some found =>
      rw [he] at hp
      cases hp
      obtain ⟨later, earlier, heq, hlater⟩ := List.lookup_eq_some_iff.mp he
      -- the first match in the reversed list is the last that was registered
      refine @LastRegistered.external _ _ earlier.reverse later.reverse _ ?_ ?_
      · rw [← List.reverse_reverse externals, heq]
        simp
      · intro other hm hname
        have := hlater other (List.mem_reverse.mp hm)
        simp [hname] at this
    | none =>
      -- no registration is in front of the built-in routine
      rw [he, Option.none_or, Provider.lookup_ofIntrinsics_eq_some_iff] at hp
      obtain ⟨routine, hname, rfl⟩ := hp
      refine .builtIn (fun other hm heq => ?_) hname
      have := List.lookup_eq_none_iff.mp he other (List.mem_reverse.mpr hm)
      simp [heq] at this
  · rintro (⟨rfl, hlast⟩ | ⟨hnone, heq⟩)
    · rename_i before after
      have hfound : (before ++ (symbol, provider) :: after).reverse.lookup symbol =
          some provider := by
        refine List.lookup_eq_some_iff.mpr ⟨after.reverse, before.reverse, by simp, ?_⟩
        intro other hm
        simpa using (hlast other (List.mem_reverse.mp hm)).symm
      rw [hfound, Option.some_or]
    · have hfresh : externals.reverse.lookup symbol = none := by
        refine List.lookup_eq_none_iff.mpr fun other hm => ?_
        simpa using (hnone other (List.mem_reverse.mp hm)).symm
      rw [hfresh, Option.none_or]
      exact Provider.lookup_ofIntrinsics_eq_some_iff.mpr ⟨_, heq, rfl⟩

/-- The lowered bodies of a finished unit have different names. -/
theorem eq_of_symbolName_eq (h : unit.Finished options externals requests)
    {first second : Entry × Option Nat} (hfirst : first ∈ unit.registry.lowered)
    (hsecond : second ∈ unit.registry.lowered)
    (hname : first.1.symbolName = second.1.symbolName) : first.1 = second.1 := by
  obtain ⟨hf, decls, hb, rfl⟩ := Compiler.finish_eq_ok h
  have hs := Compiler.sound_requestAll requests []
    (fun _ => Compiler.sound_create options externals) hf
  obtain ⟨hd, -⟩ := Compiler.declared_requestAll options externals requests hf
  have hdistinct := Compiler.distinctBodies_of_defineBodies hd hs.registry hb
  by_contra hne
  exact hdistinct _ (List.mem_map_of_mem hfirst) _ (List.mem_map_of_mem hsecond) hne hname

/-- The name of a lowered body stands for that body. -/
theorem callCode?_symbolName (h : unit.Finished options externals requests)
    {lowered : Entry × Option Nat} (hm : lowered ∈ unit.registry.lowered) :
    unit.callCode? lowered.1.symbolName = some (.body lowered.1) := by
  unfold callCode?
  split
  · next entry id hfound =>
    have hname := List.find?_some hfound
    have heq := h.eq_of_symbolName_eq (List.mem_of_find?_eq_some hfound) hm (by simpa using hname)
    rw [← heq]
  · next hnone =>
    have hno := List.find?_eq_none.mp hnone lowered hm
    simp at hno

/-- **Which calls run the code that was registered last.**  Every symbol of a requested kind has such
a code, and the host gets it for an entry point that is bound to the symbol.  A call of the symbol
from a lowered body runs it too, if no lowered body bears the name of the symbol; and it runs the
lowered body that does otherwise. -/
theorem call_eq_last_registered_iff (h : unit.Finished options externals requests)
    {request : Request} (hr : request ∈ requests) {symbol : String}
    (hsymbol : symbol ∈ request.kind.symbols) :
    ∃ provider, LastRegistered externals symbol provider ∧
      (∀ entry code, entry.provision = .imported symbol → unit.entryCode entry = .ok code →
        code = .provided provider) ∧
      (unit.callCode symbol = .ok (.provided provider) ↔
        ∀ lowered ∈ unit.registry.lowered, lowered.1.symbolName ≠ symbol) ∧
      ∀ lowered ∈ unit.registry.lowered, lowered.1.symbolName = symbol →
        unit.callCode symbol = .ok (.body lowered.1) := by
  obtain ⟨compiler, hs, hreg, hl⟩ := h.sound
  obtain ⟨key, hk⟩ := Option.isSome_iff_exists.mp (hs.imported hr hsymbol)
  have hlinked := hs.linked hk
  obtain ⟨provider, hp⟩ : ∃ provider, unit.decls.provider? symbol = some provider := by
    unfold Declarations.hasSymbol Declarations.provider? at hlinked
    unfold Declarations.provider?
    rw [hl]
    exact Option.isSome_iff_exists.mp hlinked
  have hbody : ∀ lowered ∈ unit.registry.lowered, lowered.1.symbolName = symbol →
      unit.callCode symbol = .ok (.body lowered.1) := by
    rintro lowered hm rfl
    rw [callCode, h.callCode?_symbolName hm]
  refine ⟨provider, h.provider?_eq_some_iff.mp hp, ?_, ⟨?_, ?_⟩, hbody⟩
  · intro entry code hprovision hcode
    rcases h.provides hcode with ⟨hlowered, -⟩ | ⟨other, found, himported, hfound, rfl⟩
    · rw [hprovision] at hlowered
      cases hlowered
    · rw [hprovision] at himported
      cases himported
      rw [hp] at hfound
      cases hfound
      rfl
  · intro hcall lowered hm hname
    rw [hbody lowered hm hname] at hcall
    cases hcall
  · intro hnames
    rw [callCode_eq hnames, hp]

/-- An iterator that advances by a symbol of the name of the body of an empty zip. -/
def shadowed : Kind := .external (.iterator "line" .i64 "iternext.zip[]" none)

/-- Once an empty zip is requested, loops over the iterator run the body of the zip, and not the code
that was registered and that the host gets. -/
theorem call_eq_last_registered_iff_shadowed :
    ∃ unit : Compiled,
      unit.Finished .debug [("iternext.zip[]", .scriptNext)]
        [.iterator (.zip []), .iterator shadowed, .loop shadowed] ∧
      "iternext.zip[]" ∈ shadowed.symbols ∧
      unit.entryCode ⟨.iternext, shadowed⟩ = .ok (.provided .scriptNext) ∧
      unit.callCode "iternext.zip[]" = .ok (.body ⟨.iternext, .zip []⟩) ∧
      unit.callCode "iternext.zip[]" ≠ .ok (.provided .scriptNext) := by
  obtain ⟨unit, hfinish, hcode, hbody⟩ : ∃ unit : Compiled,
      unit.Finished .debug [("iternext.zip[]", .scriptNext)]
        [.iterator (.zip []), .iterator shadowed, .loop shadowed] ∧
      unit.entryCode ⟨.iternext, shadowed⟩ = .ok (.provided .scriptNext) ∧
      ∃ lowered ∈ unit.registry.lowered, lowered.1 = ⟨.iternext, .zip []⟩ := by
    refine ⟨_, rfl, rfl, ?_⟩
    decide +kernel
  obtain ⟨lowered, hm, hentry⟩ := hbody
  have hname : lowered.1.symbolName = "iternext.zip[]" := by rw [hentry]; rfl
  have hsymbol : "iternext.zip[]" ∈ shadowed.symbols := List.mem_singleton_self _
  obtain ⟨-, -, -, -, hruns⟩ :=
    hfinish.call_eq_last_registered_iff (show Request.loop shadowed ∈ _ by simp) hsymbol
  have hrun := hruns lowered hm hname
  rw [hentry] at hrun
  refine ⟨unit, hfinish, hsymbol, hcode, hrun, ?_⟩
  rw [hrun]
  exact fun h => by cases h

end Finished

end Compiled

end PullIter
