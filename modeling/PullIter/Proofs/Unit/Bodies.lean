import PullIter.Proofs.Unit.Plan

/-!
# What lowered bodies hold

The body of an entry point and the list of what it calls are written down apart from each other.
They agree: a body accesses only fields that there are and that are scalars, and it calls only
what the entry point lists, the symbols of its kind and the memory primitives, each in its shape.

## Main definitions

* `Layout.HasScalar` — a record has a scalar at an index.
* `Instr.Fitting` — an instruction that the body of an entry point may hold.

## Main results

* `Entry.exists_body` — every lowered entry point has a body, of fitting instructions.
-/

namespace PullIter

/-! ### Fields -/

namespace Layout

/-- The field of a record at the index of a part is that part. -/
theorem field_record {parts : List (String × Layout)} {index : Nat} {part : String × Layout}
    (h : parts[index]? = some part) :
    ∃ field, (record parts).field index = .ok field ∧ field.layout = part.2 := by
  have hmap : ((place 0 parts).map fun field => (field.name, field.layout))[index]? = some part := by
    rw [map_place, h]
  rw [List.getElem?_map, Option.map_eq_some_iff] at hmap
  obtain ⟨field, hf, rfl⟩ := hmap
  exact ⟨field, by rw [Layout.field, fields_record, hf], rfl⟩

/-- The field at the index is there, and it is a scalar. -/
def HasScalar (layout : Layout) (index : Nat) : Prop :=
  ∃ field, layout.field index = .ok field ∧ field.layout.scalarKind?.isSome

theorem hasScalar_record {parts : List (String × Layout)} {index : Nat} (part : String × Layout)
    (h : parts[index]? = some part) (hs : part.2.scalarKind?.isSome) :
    (record parts).HasScalar index := by
  obtain ⟨field, hf, hl⟩ := field_record h
  exact ⟨field, hf, by rw [hl]; exact hs⟩

theorem getElem?_sourceParts (w : Nat) (args : List Scalar) (start index : Nat) :
    (sourceParts w start args)[index]? =
      args[index]?.map fun kind => (sourceName (start + index), ofScalar w kind) := by
  induction args generalizing start index with
  | nil => rfl
  | cons kind rest ih =>
    cases index with
    | zero => rfl
    | succ index =>
      rw [sourceParts, List.getElem?_cons_succ, List.getElem?_cons_succ, ih, Nat.add_right_comm,
        Nat.add_assoc]

/-- The argument record of a zip has a scalar for each argument. -/
theorem hasScalar_zipArgs {w : Nat} {args : List Scalar} {index : Nat} (h : index < args.length) :
    (zipArgs w args).HasScalar index := by
  refine hasScalar_record (sourceName (0 + index), ofScalar w args[index]) ?_ rfl
  rw [zipArgParts, getElem?_sourceParts, List.getElem?_eq_getElem h, Option.map_some]

/-- The state of a zip has a scalar for each source. -/
theorem hasScalar_zipState {w sources index : Nat} (h : index < sources) :
    (zipState w sources).HasScalar index :=
  hasScalar_zipArgs (w := w) (by rwa [List.length_replicate])

end Layout

/-! ### Instructions -/

/-- The memory primitives, which are imported from the start, with their shapes. -/
def eagerUses : List (String × Shape) :=
  Declarations.eagerSymbols.map fun symbol => (symbol.name, symbol.shape)

theorem mem_eagerUses {use : String × Shape} : use ∈ eagerUses ↔
    use = (Intrinsic.alloc.name, .alloc) ∨ use = (Intrinsic.free.name, .free) := by
  have hlist : eagerUses = [(Intrinsic.alloc.name, .alloc), (Intrinsic.free.name, .free)] := rfl
  rw [hlist, List.mem_cons, List.mem_singleton]

/-- An instruction that the body of an entry point may hold. -/
inductive Instr.Fitting (entry : Entry) : Instr → Prop
  /-- The address of a field that there is. -/
  | address {layout : Layout} {index : Nat} {field : Field} :
    layout.field index = .ok field → Fitting entry (.address layout index)
  /-- A read of a scalar. -/
  | load {layout : Layout} {index : Nat} :
    layout.HasScalar index → Fitting entry (.load layout index)
  /-- A write of a scalar. -/
  | store {layout : Layout} {index : Nat} :
    layout.HasScalar index → Fitting entry (.store layout index)
  /-- A call of an entry point that is listed. -/
  | entry (callee : Entry) {needed : Option String} :
    callee ∈ entry.calls → (needed.isSome → callee.op.shape.result.isSome) →
      Fitting entry (.call (.entry callee) callee.op.shape.params needed)
  /-- A call of a symbol in a shape that it is used in. -/
  | symbol {name : String} (shape : Shape) {needed : Option String} :
    (name, shape) ∈ eagerUses ++ entry.kind.symbolUses → (needed.isSome → shape.result.isSome) →
      Fitting entry (.call (.symbol name) shape.params needed)

namespace Entry

theorem fitting_allocInstr (entry : Entry) : allocInstr.Fitting entry :=
  .symbol .alloc (List.mem_append_left _ (mem_eagerUses.mpr (.inl rfl))) fun _ => rfl

theorem fitting_freeInstr (entry : Entry) : freeInstr.Fitting entry :=
  .symbol .free (List.mem_append_left _ (mem_eagerUses.mpr (.inr rfl))) fun h => by cases h

theorem fitting_nextInstr {entry : Entry} {source : Kind}
    (h : ⟨.iternext, source.iteratorKind⟩ ∈ entry.calls) :
    (nextInstr source.iteratorKind).Fitting entry :=
  .entry ⟨.iternext, source.iteratorKind⟩ h fun _ => rfl

/-- Getting an iterator of a source calls a symbol of the source, if anything. -/
theorem fitting_getiterInstrs {entry : Entry} {source : Kind}
    (h : ∀ use ∈ source.symbolUses, use ∈ entry.kind.symbolUses) {instr : Instr}
    (hm : instr ∈ getiterInstrs source) : instr.Fitting entry := by
  unfold getiterInstrs at hm
  split at hm
  · next symbol hs =>
    rw [List.mem_singleton.mp hm]
    refine .symbol .getiter (List.mem_append_right _ (h _ ?_)) fun _ => rfl
    cases source with
    | external ext =>
      cases ext with
      | iterator => cases hs
      | iterable name yields getiter made =>
        cases hs
        exact List.mem_cons_self ..
    | enumerate => cases hs
    | zip => cases hs
    | generator => cases hs
  · simp at hm

/-- Releasing what was got of a source calls its release, if anything. -/
theorem fitting_releaseInstrs {entry : Entry} {source : Kind}
    (h : ∀ callee ∈ sourceRelease source, callee ∈ entry.calls) {instr : Instr}
    (hm : instr ∈ releaseInstrs source) : instr.Fitting entry := by
  rw [releaseInstrs_eq] at hm
  obtain ⟨callee, hcallee, rfl⟩ := List.mem_map.mp hm
  obtain ⟨-, rfl⟩ := mem_sourceRelease hcallee
  exact .entry ⟨.release, source.iteratorKind⟩ (h _ hcallee) fun h => by cases h

/-- So does fetching it first. -/
theorem fitting_releaseFetched {entry : Entry} {source : Kind} {fetch : Instr}
    (h : ∀ callee ∈ sourceRelease source, callee ∈ entry.calls) (hfetch : fetch.Fitting entry)
    {instr : Instr} (hm : instr ∈ releaseFetched source fetch) : instr.Fitting entry := by
  unfold releaseFetched at hm
  split at hm
  · cases hm
  · rcases List.mem_cons.mp hm with rfl | hm
    · exact hfetch
    · exact fitting_releaseInstrs h hm

theorem hasScalar_countIndex : enumerateState.HasScalar Layout.countIndex :=
  Layout.hasScalar_record ("count", Layout.ofScalar targetPointerBytes .i64) rfl rfl

theorem hasScalar_sourceIndex : enumerateState.HasScalar Layout.sourceIndex :=
  Layout.hasScalar_record ("source", Layout.ofScalar targetPointerBytes .ptr) rfl rfl

/-- The value of a zip has a field for each source. -/
theorem field_zipLayout {sources : List Kind} {index : Nat} (h : index < sources.length) :
    ∃ field, (zipLayout sources).field index = .ok field := by
  have hlt : index < (Layout.tupleParts targetPointerBytes 0 (Kind.yieldsList sources)).length := by
    rwa [Layout.length_tupleParts, Kind.length_yieldsList]
  obtain ⟨field, hf, -⟩ := Layout.field_record (List.getElem?_eq_getElem hlt)
  exact ⟨field, by rw [zipLayout_eq, yieldLayout, Kind.yields, Layout.ofType, hf]⟩

/-! ### Bodies -/

/-- The instructions for each source of a zip fit if those for every single source do. -/
theorem fitting_of_mem_flatMap {entry : Entry} {sources : List Kind}
    {instrs : Kind × Nat → List Instr}
    (h : ∀ {source index}, sources[index]? = some source → ∀ instr ∈ instrs (source, index),
      instr.Fitting entry) {instr : Instr} (hm : instr ∈ sources.zipIdx.flatMap instrs) :
    instr.Fitting entry := by
  obtain ⟨⟨source, index⟩, hs, hi⟩ := List.mem_flatMap.mp hm
  exact h (List.mem_zipIdx_iff_getElem?.mp hs) instr hi

theorem exists_body_iternext {kind : Kind}
    (hl : (⟨.iternext, kind⟩ : Entry).provision = .lowered) :
    ∃ instrs, body ⟨.iternext, kind⟩ = .ok instrs ∧
      ∀ instr ∈ instrs, instr.Fitting ⟨.iternext, kind⟩ := by
  cases kind with
  | enumerate source =>
    refine ⟨_, rfl, fun instr hm => ?_⟩
    simp only [List.mem_cons, List.not_mem_nil, or_false] at hm
    -- the count is moved, the source is asked, and the count is stored beside its value
    rcases hm with rfl | rfl | rfl | rfl | rfl | rfl
    · exact .load hasScalar_countIndex
    · exact .store hasScalar_countIndex
    · exact .load hasScalar_sourceIndex
    · exact .address rfl
    · exact fitting_nextInstr (List.mem_singleton_self _)
    · exact .store ⟨_, rfl, rfl⟩
  | zip sources =>
    refine ⟨_, rfl, fun instr hm => fitting_of_mem_flatMap (fun hs instr hm => ?_) hm⟩
    have hi := (List.getElem?_eq_some_iff.mp hs).1
    simp only [List.mem_cons, List.not_mem_nil, or_false] at hm
    rcases hm with rfl | rfl | rfl
    · exact .load (Layout.hasScalar_zipState hi)
    · obtain ⟨field, hf⟩ := field_zipLayout hi
      exact .address hf
    · exact fitting_nextInstr (List.mem_map.mpr ⟨_, List.mem_of_getElem? hs, rfl⟩)
  | generator name yields resume =>
    refine ⟨_, rfl, fun instr hm => ?_⟩
    rw [List.mem_singleton.mp hm]
    exact .symbol .iternext (List.mem_append_right _ (List.mem_singleton_self _)) fun _ => rfl
  | external ext => cases ext <;> cases hl

theorem exists_body_release {kind : Kind}
    (hl : (⟨.release, kind⟩ : Entry).provision = .lowered) :
    ∃ instrs, body ⟨.release, kind⟩ = .ok instrs ∧
      ∀ instr ∈ instrs, instr.Fitting ⟨.release, kind⟩ := by
  cases kind with
  | enumerate source =>
    have hcalls : ∀ callee ∈ sourceRelease source, callee ∈ calls ⟨.release, .enumerate source⟩ :=
      fun _ h => h
    refine ⟨_, rfl, fun instr hm => ?_⟩
    rcases List.mem_append.mp hm with hm | hm
    · exact fitting_releaseFetched hcalls (.load hasScalar_sourceIndex) hm
    · rw [List.mem_singleton.mp hm]
      exact fitting_freeInstr _
  | zip sources =>
    refine ⟨_, rfl, fun instr hm => ?_⟩
    rcases List.mem_append.mp hm with hm | hm
    · refine fitting_of_mem_flatMap (fun {source index} hs instr hm => ?_) hm
      have hcalls : ∀ callee ∈ sourceRelease source, callee ∈ calls ⟨.release, .zip sources⟩ :=
        fun _ h => List.mem_flatMap.mpr ⟨source, List.mem_of_getElem? hs, h⟩
      have hi := (List.getElem?_eq_some_iff.mp hs).1
      exact fitting_releaseFetched hcalls (.load (Layout.hasScalar_zipState hi)) hm
    · rw [List.mem_singleton.mp hm]
      exact fitting_freeInstr _
  | generator => cases hl
  | external ext =>
    cases ext with
    | iterator name yields next release => cases release <;> cases hl
    | iterable => cases hl

/-- The arguments of an enumerate are found in its argument record. -/
theorem hasScalar_enumerateArgs {source : Kind} {args : List Scalar}
    (h : (Kind.enumerate source).checkConstructor args = .ok ()) {index : Nat}
    (hi : index < args.length) :
    (Layout.enumerateArgs targetPointerBytes args).HasScalar index := by
  match args, index with
  | [], _ => cases h
  | _ :: _ :: _ :: _, _ => cases h
  | [first], 0 =>
    exact Layout.hasScalar_record ("source", Layout.ofScalar targetPointerBytes first) rfl rfl
  | [first, _], 0 =>
    exact Layout.hasScalar_record ("source", Layout.ofScalar targetPointerBytes first) rfl rfl
  | [_, second], 1 =>
    exact Layout.hasScalar_record ("start", Layout.ofScalar targetPointerBytes second) rfl rfl
  | [_], index + 1 => exact absurd hi (by simp)
  | [_, _], index + 2 => exact absurd hi (by simp)

theorem exists_body_construct {kind : Kind} {args : List Scalar}
    (ha : kind.checkConstructor args = .ok ()) :
    ∃ instrs, body ⟨.construct args, kind⟩ = .ok instrs ∧
      ∀ instr ∈ instrs, instr.Fitting ⟨.construct args, kind⟩ := by
  cases kind with
  | enumerate source =>
    have hpos : 0 < args.length := List.length_pos_iff.mpr fun h => by subst h; cases ha
    refine ⟨_, rfl, fun instr hm => ?_⟩
    simp only [List.mem_append, List.mem_cons, List.not_mem_nil, or_false] at hm
    -- the source, the start if there is one, the iterator, the storage and its two words
    rcases hm with ((rfl | hm) | hm) | rfl | rfl | rfl
    · exact .load (hasScalar_enumerateArgs ha hpos)
    · split at hm
      · next hlt =>
        rw [List.mem_singleton.mp hm]
        exact .load (hasScalar_enumerateArgs ha hlt)
      · simp at hm
    · have huses : ∀ use ∈ source.symbolUses, use ∈ (Kind.enumerate source).symbolUses :=
        fun _ h => h
      exact fitting_getiterInstrs huses hm
    · exact fitting_allocInstr _
    · exact .store hasScalar_countIndex
    · exact .store hasScalar_sourceIndex
  | zip sources =>
    have hlength : args.length = sources.length := by
      by_contra hne
      simp [Kind.checkConstructor, hne] at ha
    refine ⟨_, rfl, fun instr hm => ?_⟩
    rcases List.mem_append.mp hm with hm | hm
    · rw [List.mem_singleton.mp hm]
      exact fitting_allocInstr _
    · refine fitting_of_mem_flatMap (fun {source index} hs instr hm => ?_) hm
      have hi := (List.getElem?_eq_some_iff.mp hs).1
      have huses : ∀ use ∈ source.symbolUses, use ∈ (Kind.zip sources).symbolUses :=
        fun _ h => Kind.symbolUses_of_mem (List.mem_of_getElem? hs) h
      simp only [List.mem_append, List.mem_singleton] at hm
      rcases hm with (rfl | hm) | rfl
      · exact .load (Layout.hasScalar_zipArgs (hlength ▸ hi))
      · exact fitting_getiterInstrs huses hm
      · exact .store (Layout.hasScalar_zipState hi)
  | generator => cases ha
  | external => cases ha

/-- **Every lowered entry point** has a body, and all its instructions fit. -/
theorem exists_body {entry : Entry} (hl : entry.provision = .lowered)
    (ha : ∀ args, entry.op = .construct args → entry.kind.checkConstructor args = .ok ()) :
    ∃ instrs, entry.body = .ok instrs ∧ ∀ instr ∈ instrs, instr.Fitting entry := by
  obtain ⟨op, kind⟩ := entry
  cases op with
  | getiter => exact ⟨_, rfl, fun instr hm => fitting_getiterInstrs (fun _ h => h) hm⟩
  | forEach =>
    have hcalls : ∀ callee ∈ sourceRelease kind, callee ∈ calls ⟨.forEach, kind⟩ :=
      fun _ h => List.mem_cons_of_mem _ h
    refine ⟨_, rfl, fun instr hm => ?_⟩
    simp only [List.mem_append, List.mem_singleton] at hm
    rcases hm with (hm | rfl) | hm
    · exact fitting_getiterInstrs (fun _ h => h) hm
    · exact fitting_nextInstr (List.mem_cons_self ..)
    · exact fitting_releaseInstrs hcalls hm
  | iternext => exact exists_body_iternext hl
  | release => exact exists_body_release hl
  | construct args => exact exists_body_construct (ha args rfl)

end Entry

end PullIter
