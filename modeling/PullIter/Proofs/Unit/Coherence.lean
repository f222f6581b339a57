import PullIter.Exec.Body
import PullIter.Proofs.Layout.Remembered
import PullIter.Proofs.Unit.Bodies

/-!
# What the descriptions of a kind have in common

The facts about a kind are written down several times: its symbols with and without their shapes,
the type of its values for the value, for what `getiter` makes of it and for the body that stores
them, the condition for a release where it is emitted, listed, requested and run, and the layout of
a value on the side that stores it and on the side that reads it.  For every part of a right kind
they agree.

## Main definitions

* `Kind.Part` — the parts of a kind.
* `Instr.called?` — the entry point that an instruction calls.
* `Kind.SlotAgrees` — a slot has the layout that its source is advanced and read with.
* `Kind.Coherent` — what is said of a kind agrees.

## Main results

* `Entry.called_body` — the calls of a body are those that are listed.
* `Kind.slotAgrees_enumerate`, `Kind.slotAgrees_zip` — the slots of the combinators.
* `Kind.answer_yields_iff`, `Kind.answer_args_iff` — bodies are lowered with the layouts that are
  given to who asks for them, up to the size at which none is given.
* `Kind.descriptions_agree` — **the descriptions of a kind agree.**
-/

namespace PullIter

/-! ### Parts -/

namespace Kind

/-- The parts of a kind: itself, its sources, the iterator that an iterable makes, and their
parts. -/
inductive Part (part : Kind) : Kind → Prop
  | self : Part part part
  | enumerate {source : Kind} (h : Part part source) : Part part (.enumerate source)
  | zip {source : Kind} {sources : List Kind} (hm : source ∈ sources) (h : Part part source) :
    Part part (.zip sources)
  | made {name : String} {yields : ValueType} {getiter : String} {made : External}
    (h : Part part (.external made)) : Part part (.external (.iterable name yields getiter made))

/-- A part of a right kind is right. -/
theorem Part.check {part kind : Kind} (h : part.Part kind) (hc : kind.check = .ok ()) :
    part.check = .ok () := by
  induction h with
  | self => exact hc
  | @enumerate source _ ih => exact ih ((within_enumerate source).check hc)
  | zip hm _ ih => exact ih ((within_zip hm).check hc)
  | @made name yields getiter made _ ih =>
    exact ih ((within_made (.iterable name yields getiter made)).check hc)

/-- What `getiter` makes of a right kind yields what the kind does. -/
theorem yields_iteratorKind {kind : Kind} (h : kind.check = .ok ()) :
    kind.iteratorKind.yields = kind.yields := by
  cases kind with
  | external ext =>
    cases ext with
    | iterator => rfl
    | iterable name yields getiter made =>
      cases made with
      | iterator => rfl
      | iterable => cases h
  | enumerate => rfl
  | zip => rfl
  | generator => rfl

end Kind

/-! ### Calls -/

/-- The entry point that an instruction calls. -/
def Instr.called? : Instr → Option Entry
  | .call (.entry entry) _ _ => some entry
  | .call (.symbol _) _ _ | .address .. | .load .. | .store .. => none

namespace Entry

@[simp] theorem called_getiterInstrs (source : Kind) :
    (getiterInstrs source).filterMap Instr.called? = [] := by
  unfold getiterInstrs
  split <;> rfl

@[simp] theorem called_releaseInstrs (source : Kind) :
    (releaseInstrs source).filterMap Instr.called? = sourceRelease source := by
  rw [releaseInstrs_eq, List.filterMap_map]
  exact List.filterMap_some

/-- Fetching what is released calls nothing. -/
@[simp] theorem called_releaseFetched (source : Kind) (layout : Layout) (index : Nat) :
    (releaseFetched source (.load layout index)).filterMap Instr.called? = sourceRelease source := by
  unfold releaseFetched
  split
  · next hnone => exact (List.isEmpty_iff.mp hnone).symm
  · exact called_releaseInstrs source

/-- The calls for the sources of a zip, whatever the index of a source is used for. -/
theorem called_flatMap {sources : List Kind} {instrs : Kind × Nat → List Instr}
    {calls : Kind → List Entry}
    (h : ∀ source index, (instrs (source, index)).filterMap Instr.called? = calls source) :
    (sources.zipIdx.flatMap instrs).filterMap Instr.called? = sources.flatMap calls := by
  rw [List.filterMap_flatMap, funext fun part : Kind × Nat => h part.1 part.2,
    ← List.flatMap_map Prod.fst calls, List.zipIdx_map_fst]

/-- **The calls of a body** are those that are listed for its entry point, in their order. -/
theorem called_body {entry : Entry} {instrs : List Instr} (h : entry.body = .ok instrs) :
    instrs.filterMap Instr.called? = entry.calls := by
  obtain ⟨op, kind⟩ := entry
  cases op with
  | getiter =>
    cases h
    exact called_getiterInstrs kind
  | forEach =>
    cases h
    rw [List.filterMap_append, List.filterMap_append, called_getiterInstrs, called_releaseInstrs]
    rfl
  | iternext =>
    cases kind with
    | enumerate source => cases h; rfl
    | zip sources =>
      cases h
      rw [called_flatMap fun source index =>
        show _ = [(⟨.iternext, source.iteratorKind⟩ : Entry)] from rfl]
      exact List.map_eq_flatMap.symm
    | generator => cases h; rfl
    | external => cases h
  | release =>
    cases kind with
    | enumerate source =>
      cases h
      rw [List.filterMap_append, called_releaseFetched]
      exact List.append_nil _
    | zip sources =>
      cases h
      rw [List.filterMap_append,
        called_flatMap fun source index => called_releaseFetched source _ index]
      exact List.append_nil _
    | generator => cases h
    | external => cases h
  | construct args =>
    cases kind with
    | enumerate source =>
      cases h
      rw [List.filterMap_append, List.filterMap_append, List.filterMap_append, called_getiterInstrs]
      split <;> rfl
    | zip sources =>
      cases h
      -- an iterator of a source is obtained through a symbol: no body is called for it
      have hnone : ∀ (source : Kind) (index : Nat),
          ([Instr.load (Layout.zipArgs targetPointerBytes args) index] ++ getiterInstrs source ++
            [Instr.store (zipState sources.length) index]).filterMap Instr.called? = [] := by
        intro source index
        rw [List.filterMap_append, List.filterMap_append, called_getiterInstrs]
        rfl
      rw [List.filterMap_append, called_flatMap hnone, List.flatMap_eq_nil_iff.mpr fun _ _ => rfl]
      rfl
    | generator => cases h
    | external => cases h

end Entry

/-! ### Slots -/

namespace Layout

theorem getElem?_tupleParts (w : Nat) (types : List ValueType) (start index : Nat) :
    (tupleParts w start types)[index]? =
      types[index]?.map fun type => (toString (start + index), ofType w type) := by
  induction types generalizing start index with
  | nil => rfl
  | cons type rest ih =>
    cases index with
    | zero => rfl
    | succ index =>
      rw [tupleParts, List.getElem?_cons_succ, List.getElem?_cons_succ, ih, Nat.add_right_comm,
        Nat.add_assoc]

/-- The field of a tuple at an index has the layout of the type at that index, and is no larger than
the tuple. -/
theorem field_tuple {w : Nat} (hw : 0 < w) {types : List ValueType} {index : Nat} {type : ValueType}
    (h : types[index]? = some type) :
    ∃ field, (ofType w (.tuple types)).field index = .ok field ∧ field.layout = ofType w type ∧
      (ofType w type).size ≤ (ofType w (.tuple types)).size := by
  have hpart : (tupleParts w 0 types)[index]? = some (toString (0 + index), ofType w type) := by
    rw [getElem?_tupleParts, h, Option.map_some]
  obtain ⟨field, hfield, hlayout⟩ := field_record hpart
  rw [ofType]
  exact ⟨field, hfield, hlayout,
    size_le_size_record (align_tupleParts_pos hw) (List.mem_of_getElem? hpart)⟩

end Layout

namespace Kind

/-- **A slot has the layout that its source is advanced and read with.**  This holds of the layouts
that bodies are lowered with, and of those that are asked for, for every width of pointers and
whatever was asked before. -/
structure SlotAgrees (kind : Kind) (index : Nat) (source : Kind) : Prop where
  lowered : ∃ field, (Entry.yieldLayout kind).field index = .ok field ∧
    field.layout = Entry.yieldLayout source.iteratorKind
  asked : ∀ {w : Nat} {cache other after : LayoutCache} {whole : Layout}, 0 < w →
    w ≤ Layout.maxSize → cache.Reached w → other.Reached w →
    cache.answer (.yields kind) = .ok (some whole, after) →
      ∃ field after', whole.field index = .ok field ∧
        other.answer (.yields source.iteratorKind) = .ok (some field.layout, after')

theorem slotAgrees_of_tuple {kind source : Kind} {types : List ValueType} {index : Nat}
    (hk : kind.yields = .tuple types) (hs : types[index]? = some source.iteratorKind.yields) :
    kind.SlotAgrees index source := by
  constructor
  · obtain ⟨field, hfield, hlayout, -⟩ :=
      Layout.field_tuple (show 0 < targetPointerBytes by decide) hs
    exact ⟨field, by rw [Entry.yieldLayout, hk]; exact hfield, hlayout⟩
  · intro w cache other after whole hw hm hcache hother hanswer
    obtain ⟨rfl, hsize⟩ := (hcache.answer_eq_ok_iff hw hm rfl).mp ⟨after, hanswer⟩
    rw [LayoutSubject.layout, hk] at hsize ⊢
    obtain ⟨field, hfield, hlayout, hle⟩ := Layout.field_tuple hw hs
    obtain ⟨after', hanswer'⟩ := (hother.answer_eq_ok_iff hw hm
      (show (LayoutQuery.yields source.iteratorKind).subject = some (.value _) from rfl)).mpr
        ⟨hlayout, by rw [hlayout]; exact Nat.le_trans hle hsize⟩
    exact ⟨field, after', hfield, hanswer'⟩

theorem getElem?_yieldsList (sources : List Kind) (index : Nat) :
    (yieldsList sources)[index]? = sources[index]?.map yields := by
  induction sources generalizing index with
  | nil => rfl
  | cons source rest ih =>
    cases index with
    | zero => rfl
    | succ index => rw [yieldsList, List.getElem?_cons_succ, List.getElem?_cons_succ, ih]

/-- The counted value of an enumerate. -/
theorem slotAgrees_enumerate {source : Kind} (h : source.check = .ok ()) :
    (enumerate source).SlotAgrees 1 source :=
  slotAgrees_of_tuple rfl (congrArg some (yields_iteratorKind h).symm)

/-- The values of the sources of a zip. -/
theorem slotAgrees_zip {sources : List Kind} {source : Kind} {index : Nat}
    (hs : sources[index]? = some source) (h : source.check = .ok ()) :
    (zip sources).SlotAgrees index source := by
  refine slotAgrees_of_tuple rfl ?_
  rw [getElem?_yieldsList, hs, Option.map_some, yields_iteratorKind h]

/-! ### Limits -/

section Limits

variable {cache : LayoutCache} {layout : Layout}

/-- The layout that a kind is lowered with is the one that is given when it is asked for, if it is
not too large to be given. -/
theorem answer_yields_iff (h : cache.Reached targetPointerBytes) (kind : Kind) :
    (∃ after, cache.answer (.yields kind) = .ok (some layout, after)) ↔
      layout = Entry.yieldLayout kind ∧ layout.size ≤ Layout.maxSize :=
  h.answer_eq_ok_iff (by decide) (by decide)
    (show (LayoutQuery.yields kind).subject = some (.value kind.yields) from rfl)

/-- So is the argument record of a constructor. -/
theorem answer_args_iff (h : cache.Reached targetPointerBytes) (kind : Kind) (args : List Scalar) :
    (∃ after, cache.answer (.args kind args) = .ok (some layout, after)) ↔
      Entry.argsLayout? kind args = some layout ∧ layout.size ≤ Layout.maxSize := by
  cases kind with
  | enumerate source =>
    rw [h.answer_eq_ok_iff (by decide) (by decide) rfl, LayoutSubject.layout,
      ← Layout.enumerateArgParts_eq_scalarParts, Entry.argsLayout?, Option.some.injEq, eq_comm]
    rfl
  | zip sources =>
    rw [h.answer_eq_ok_iff (by decide) (by decide) rfl, LayoutSubject.layout,
      ← Layout.sourceParts_eq_scalarParts, Entry.argsLayout?, Option.some.injEq, eq_comm]
    rfl
  | generator | external =>
    constructor
    · rintro ⟨_, h⟩
      cases h
    · rintro ⟨h, -⟩
      cases h

end Limits

/-! ### Releases -/

/-- What is run to release what `getiter` made of a source is the symbol of the release that is
listed, and nothing if none is. -/
theorem releaseMade_eq {source : Kind} (h : source.check = .ok ()) (link : Linkage)
    (iterator : UInt64) (store : Store) : Exec.releaseMade link source iterator store =
      match (Entry.sourceRelease source).map Entry.provision with
      | .imported symbol :: _ => link.release symbol iterator store
      | _ => .ok store := by
  cases source with
  | external ext =>
    cases ext with
    | iterator => rfl
    | iterable name yields getiter made =>
      cases made with
      | iterator name yields next release => cases release <;> rfl
      | iterable => cases h
  | enumerate => rfl
  | zip => rfl
  | generator => rfl

/-! ### Agreement -/

/-- What is said of a kind agrees. -/
structure Coherent (kind : Kind) : Prop where
  /-- What `getiter` makes is an iterator, its own iterator, and yields what the kind does. -/
  iterator : kind.iteratorKind.isIterator = true
  own : kind.iteratorKind.iteratorKind = kind.iteratorKind
  yields : kind.iteratorKind.yields = kind.yields
  /-- A release is emitted exactly if it is listed, and so it is requested and run. -/
  emitted : Entry.releaseInstrs kind =
    (Entry.sourceRelease kind).map fun entry => .call (.entry entry) Shape.release.params none
  requested : (Request.iterator kind).seeds =
    ⟨.getiter, kind⟩ :: ⟨.iternext, kind.iteratorKind⟩ :: Entry.sourceRelease kind
  released : ∀ (link : Linkage) (iterator : UInt64) (store : Store),
    Exec.releaseMade link kind iterator store =
      match (Entry.sourceRelease kind).map Entry.provision with
      | .imported symbol :: _ => link.release symbol iterator store
      | _ => .ok store
  /-- The calls of a body are those that are listed. -/
  called : ∀ {op : Op} {instrs : List Instr}, (⟨op, kind⟩ : Entry).body = .ok instrs →
    instrs.filterMap Instr.called? = (⟨op, kind⟩ : Entry).calls
  /-- The body of a combinator stores into the layout of what the combinator yields. -/
  counted : ∀ {source : Kind}, kind = .enumerate source →
    Entry.enumerateLayout source = Entry.yieldLayout kind
  zipped : ∀ {sources : List Kind}, kind = .zip sources →
    Entry.zipLayout sources = Entry.yieldLayout kind
  /-- The slots of a combinator have the layouts of its sources. -/
  payload : ∀ {source : Kind}, kind = .enumerate source → kind.SlotAgrees 1 source
  slots : ∀ {sources : List Kind} {index : Nat} {source : Kind}, kind = .zip sources →
    sources[index]? = some source → kind.SlotAgrees index source

theorem coherent_of_check {kind : Kind} (h : kind.check = .ok ()) : kind.Coherent where
  iterator := isIterator_iteratorKind h
  own := iteratorKind_iteratorKind h
  yields := yields_iteratorKind h
  emitted := Entry.releaseInstrs_eq kind
  requested := Request.seeds_iterator kind
  released := releaseMade_eq h
  called := Entry.called_body
  counted := by
    rintro source rfl
    exact Entry.enumerateLayout_eq source
  zipped := by
    rintro sources rfl
    exact Entry.zipLayout_eq sources
  payload := by
    rintro source rfl
    exact slotAgrees_enumerate h
  slots := by
    rintro sources index source rfl hs
    exact slotAgrees_zip hs (check_of_mem (List.mem_of_getElem? hs) h)

/-- **The descriptions of a kind agree.**  The symbols that a kind uses in some shape are its
symbols, in the same order and as often; and if the kind is right, then what is said of it and of
every part of it agrees. -/
theorem descriptions_agree (kind : Kind) :
    kind.symbolUses.map Prod.fst = kind.symbols ∧
      (kind.check = .ok () → ∀ part : Kind, part.Part kind → part.Coherent) :=
  ⟨map_fst_symbolUses kind, fun h _ hp => coherent_of_check (hp.check h)⟩

/-- A coroutine and an array in a zip in an enumerate.  The zip is a part, and its second slot has
the layout that the iterator over the array stores into. -/
theorem descriptions_agree_nested :
    (enumerate (.zip [.coroutine "g", .array])).check = .ok () ∧
      (zip [.coroutine "g", .array]).SlotAgrees 1 .array ∧
      array.iteratorKind.isIterator = true ∧ array.iteratorKind.yields = array.yields ∧
      (enumerate (.zip [.coroutine "g", .array])).symbolUses.map Prod.fst =
        [Intrinsic.generatorResume.name, Intrinsic.arrayGetiter.name, Intrinsic.arrayNext.name,
          Intrinsic.arrayRelease.name] := by
  obtain ⟨hsymbols, hparts⟩ := descriptions_agree (enumerate (.zip [.coroutine "g", .array]))
  have hzip := hparts rfl (.zip [.coroutine "g", .array]) (.enumerate .self)
  have harray := hparts rfl .array
    (.enumerate (.zip (List.mem_cons_of_mem _ (List.mem_singleton_self _)) .self))
  exact ⟨rfl, hzip.slots rfl rfl, harray.iterator, harray.yields, hsymbols.trans rfl⟩

end Kind

end PullIter
