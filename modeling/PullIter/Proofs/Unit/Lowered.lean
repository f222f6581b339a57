import Mathlib.Data.List.Nodup
import PullIter.Proofs.Unit.Finished

/-!
# The lowered bodies of a unit

A unit has one lowered body for each entry point that is made available and lowered.  Finishing
the unit goes through these bodies once, and gives each of their identities a body once.

## Main definitions

* `Compiled.LoweredOnce` — the body of an entry point is lowered, and lowered once.
* `Compiled.BoundTo` — an entry point is provided by a symbol.

## Main results

* `Consistent.mem_lowered_iff`, `Consistent.nodup_lowered` — the lowered bodies of a registry.
* `defineBodies_eq_ok` — the bodies that were defined have different identities.
* `Finished.loweredOnce`, `Finished.boundTo` — how the available entry points are provided.
-/

namespace PullIter

/-! ### The bodies of a registry -/

namespace Registry

/-- The function that is named after the lowered body of an entry point is the one that the key of
the entry point leads to. -/
theorem Consistent.key_of_getElem? {registry : Registry} (h : registry.Consistent) {key : Nat}
    {f : FunctionRecord} {entry : Entry} (hf : registry.functions[key]? = some f)
    (hn : f.name = .lowered entry) : registry.entryKey? entry = some key :=
  h.lowered (by rw [name?, hf, Option.map_some, hn])

/-- The lowered bodies are those of the entry points that are there and lowered. -/
theorem Consistent.mem_lowered_iff {registry : Registry} (h : registry.Consistent) {entry : Entry}
    {id : Option Nat} : (entry, id) ∈ registry.lowered ↔
      entry.provision = .lowered ∧
        ∃ key, registry.entryKey? entry = some key ∧ registry.id? key = id := by
  constructor
  · intro hm
    obtain ⟨f, hf, heq⟩ := List.mem_filterMap.mp hm
    obtain ⟨key, hlt, hkey⟩ := List.mem_iff_getElem.mp hf
    have hget : registry.functions[key]? = some f := by rw [List.getElem?_eq_getElem hlt, hkey]
    split at heq
    · next found hn =>
      cases heq
      have hk := h.key_of_getElem? hget hn
      refine ⟨?_, key, hk, by rw [id?, hget, Option.bind_some]⟩
      rcases h.entry hk with ⟨hl, -⟩ | ⟨symbol, -, hname, -⟩
      · exact hl
      · rw [name?, hget, Option.map_some, hn] at hname
        cases hname
    · cases heq
  · rintro ⟨hl, key, hk, rfl⟩
    rcases h.entry hk with ⟨-, hn⟩ | ⟨symbol, hi, -⟩
    · obtain ⟨f, hf, hname⟩ := Option.map_eq_some_iff.mp hn
      refine List.mem_filterMap.mpr ⟨f, List.mem_of_getElem? hf, ?_⟩
      rw [hname, id?, hf, Option.bind_some]
    · rw [hl] at hi
      cases hi

/-- No entry point has two lowered bodies. -/
theorem Consistent.nodup_lowered {registry : Registry} (h : registry.Consistent) :
    (registry.lowered.map Prod.fst).Nodup := by
  rw [List.Nodup, List.pairwise_map, Registry.lowered, List.pairwise_filterMap, List.pairwise_iff_getElem]
  intro i j hi hj hlt first hfirst second hsecond heq
  split at hfirst
  · next entry hn =>
    split at hsecond
    · next other hn' =>
      cases hfirst
      cases hsecond
      -- both functions are what the key of the entry point leads to
      have hkey := h.key_of_getElem? (List.getElem?_eq_getElem hi) hn
      have hkey' := h.key_of_getElem? (List.getElem?_eq_getElem hj) hn'
      rw [← show entry = other from heq, hkey] at hkey'
      cases hkey'
      exact Nat.lt_irrefl _ hlt
    · cases hsecond
  · cases hfirst

end Registry

/-! ### Bodies that are defined -/

theorem Declarations.define_eq_ok {decls after : Declarations} {id : Nat} {name : String}
    {fits : Bool} (h : decls.define id name fits = .ok (.ok after)) :
    id ∉ decls.defined ∧ after.defined = decls.defined ++ [id] := by
  unfold Declarations.define at h
  split at h
  · cases h
  · next hd =>
    split at h
    · cases h
      exact ⟨by simpa [isDefined] using hd, rfl⟩
    · split at h <;> cases h

namespace Compiler

theorem defineBody_eq_ok {registry : Registry} {decls after : Declarations} {entry : Entry}
    {id : Option Nat} (h : defineBody registry decls entry id = .ok (.ok after)) :
    ∃ known, id = some known ∧ known ∉ decls.defined ∧
      after.defined = decls.defined ++ [known] := by
  unfold defineBody at h
  split at h
  · cases h
  · next known =>
    split at h
    · cases h
    · split at h
      · cases h
      · exact ⟨known, rfl, Declarations.define_eq_ok h⟩

/-- Bodies that were defined have different identities, which had no bodies before. -/
theorem defineBodies_eq_ok {registry : Registry} {bodies : List (Entry × Option Nat)} :
    ∀ {decls after : Declarations}, defineBodies registry decls bodies = .ok (.ok after) →
      ∃ ids : List Nat, bodies.map Prod.snd = ids.map some ∧ ids.Nodup ∧
        ids.Disjoint decls.defined ∧ after.defined = decls.defined ++ ids := by
  induction bodies with
  | nil =>
    intro decls after h
    cases h
    exact ⟨[], rfl, List.nodup_nil, List.disjoint_nil_left _, (List.append_nil _).symm⟩
  | cons body rest ih =>
    intro decls after h
    rw [defineBodies] at h
    split at h
    · cases h
    · cases h
    · next mid hd =>
      obtain ⟨id, hid, hnew, hmid⟩ := defineBody_eq_ok hd
      obtain ⟨ids, hids, hnodup, hdisjoint, hafter⟩ := ih h
      rw [hmid] at hdisjoint hafter
      have hhead : id ∉ ids := fun hm => hdisjoint hm (by simp)
      refine ⟨id :: ids, by rw [List.map_cons, hids, hid, List.map_cons], ?_, ?_, ?_⟩
      · exact List.nodup_cons.mpr ⟨hhead, hnodup⟩
      · rw [List.disjoint_cons_left]
        exact ⟨hnew, fun _ hm hd => hdisjoint hm (List.mem_append_left _ hd)⟩
      · rw [hafter, List.append_assoc, List.singleton_append]

end Compiler

/-! ### The bodies of a finished unit -/

namespace Compiled

/-- The body of the entry point is lowered once, under an identity that is given a body once. -/
def LoweredOnce (unit : Compiled) (entry : Entry) : Prop :=
  (unit.registry.lowered.map Prod.fst).count entry = 1 ∧
    ∃ id, (entry, some id) ∈ unit.registry.lowered ∧ unit.decls.defined.count id = 1

/-- The entry point has no body of its own; it is the function of a symbol, and its code is what
the symbol is linked to. -/
def BoundTo (unit : Compiled) (entry : Entry) (symbol : String) : Prop :=
  entry ∉ unit.registry.lowered.map Prod.fst ∧
    unit.registry.entryKey? entry = unit.registry.importedKey? symbol ∧
    ∃ provider, unit.decls.provider? symbol = some provider ∧
      unit.entryCode entry = .ok (.provided provider)

variable {unit : Compiled} {options : Options} {externals : List (String × Provider)}
  {requests : List Request}

namespace Finished

/-- The bodies of the unit that was finished were defined. -/
theorem defineBodies_eq (h : unit.Finished options externals requests) :
    ∃ decls, Compiler.defineBodies unit.registry decls unit.registry.lowered =
      .ok (.ok unit.decls) := by
  obtain ⟨-, decls, hb, rfl⟩ := Compiler.finish_eq_ok h
  exact ⟨_, hb⟩

/-- The key of an available entry point. -/
theorem exists_entryKey? {entry : Entry} {code : Code} (hc : unit.entryCode entry = .ok code) :
    ∃ key, unit.registry.entryKey? entry = some key := by
  unfold Compiled.entryCode at hc
  split at hc
  · cases hc
  · next key hk => exact ⟨key, hk⟩

/-- **An available entry point that is lowered** is lowered once. -/
theorem loweredOnce (h : unit.Finished options externals requests) {entry : Entry} {code : Code}
    (hc : unit.entryCode entry = .ok code) (hl : entry.provision = .lowered) :
    unit.LoweredOnce entry := by
  obtain ⟨key, hk⟩ := exists_entryKey? hc
  have hm : (entry, unit.registry.id? key) ∈ unit.registry.lowered :=
    h.consistent.mem_lowered_iff.mpr ⟨hl, key, hk, rfl⟩
  obtain ⟨decls, hb⟩ := h.defineBodies_eq
  obtain ⟨ids, hids, hnodup, hdisjoint, hdefined⟩ := Compiler.defineBodies_eq_ok hb
  have hid : unit.registry.id? key ∈ ids.map some := hids ▸ List.mem_map_of_mem hm
  obtain ⟨id, hmem, hid⟩ := List.mem_map.mp hid
  rw [← hid] at hm
  refine ⟨List.count_eq_one_of_mem h.consistent.nodup_lowered
    (List.mem_map.mpr ⟨_, hm, rfl⟩), id, hm, ?_⟩
  rw [hdefined, List.count_append, List.count_eq_zero.mpr (hdisjoint hmem), Nat.zero_add]
  exact List.count_eq_one_of_mem hnodup hmem

/-- **An available entry point that is a symbol** is bound to that symbol. -/
theorem boundTo (h : unit.Finished options externals requests) {entry : Entry} {code : Code}
    (hc : unit.entryCode entry = .ok code) {symbol : String}
    (hi : entry.provision = .imported symbol) : unit.BoundTo entry symbol := by
  refine ⟨?_, ?_, ?_⟩
  · intro hm
    obtain ⟨⟨found, id⟩, hbody, rfl⟩ := List.mem_map.mp hm
    have hl := (h.consistent.mem_lowered_iff.mp hbody).1
    rw [hi] at hl
    cases hl
  · obtain ⟨key, hk⟩ := exists_entryKey? hc
    rcases h.consistent.entry hk with ⟨hl, -⟩ | ⟨found, hf, -, hkey⟩
    · rw [hi] at hl
      cases hl
    · rw [hi] at hf
      cases hf
      rw [hk, hkey]
  · rcases h.provides hc with ⟨hl, -⟩ | ⟨found, provider, hf, hp, rfl⟩
    · rw [hi] at hl
      cases hl
    · rw [hi] at hf
      cases hf
      exact ⟨provider, hp, hc⟩

end Finished

end Compiled

end PullIter
