import PullIter.Layout.Cache
import PullIter.Proofs.Layout.Placement

/-!
# What a cache of layouts answers

A cache remembers layouts while it makes others, the parts of a tuple before the tuple itself.  All
that it remembers is what it would answer if nothing were remembered, so no answer depends on what
was asked before.  On a machine an answer is given exactly if the layout fits it.

## Main definitions

* `LayoutSubject` — what a query asks the layout of: a value type, or a record of named scalars.
* `LayoutSubject.layout`, `LayoutSubject.layout?` — its layout, and the same on a machine.
* `LayoutCache.Faithful` — all that is remembered is right.
* `LayoutCache.Gives` — a cache answers as it should, and stays faithful.
* `LayoutCache.Reached` — a cache that has answered some queries.

## Main results

* `LayoutCache.gives_value`, `LayoutCache.gives_answer` — **a faithful cache** answers as if nothing
  were remembered.
* `LayoutCache.answers_eq_alone` — **answers to queries in turn** are those to each query alone.
* `LayoutSubject.layout?_eq_ok_iff` — a layout is given on a machine if it fits it.
* `LayoutCache.Reached.answer_eq_ok_iff` — both together.
-/

namespace PullIter

namespace Layout

/-! ### Records of named scalars -/

/-- Named scalars as the parts of a record. -/
def scalarParts (w : Nat) (fields : List (String × Scalar)) : List (String × Layout) :=
  fields.map fun field => (field.1, ofScalar w field.2)

/-- The sources of a zip as named scalars, named from `index` on. -/
def sourceFields (index : Nat) : List Scalar → List (String × Scalar)
  | [] => []
  | kind :: rest => (sourceName index, kind) :: sourceFields (index + 1) rest

theorem sourceParts_eq_scalarParts (w index : Nat) (kinds : List Scalar) :
    sourceParts w index kinds = scalarParts w (sourceFields index kinds) := by
  induction kinds generalizing index with
  | nil => rfl
  | cons kind rest ih => rw [sourceParts, ih, sourceFields, scalarParts, scalarParts, List.map_cons]

theorem map_snd_sourceFields (index : Nat) (kinds : List Scalar) :
    (sourceFields index kinds).map Prod.snd = kinds := by
  induction kinds generalizing index with
  | nil => rfl
  | cons kind rest ih => rw [sourceFields, List.map_cons, ih]

theorem enumerateArgParts_eq_scalarParts (w : Nat) (args : List Scalar) :
    enumerateArgParts w args = scalarParts w (["source", "start"].zip args) := by
  rw [enumerateArgParts, List.zip_map_right]
  rfl

/-! ### Value types on a machine -/

mutual

/-- The layout of a value type on a machine, with nothing remembered. -/
def ofType? (w : Nat) : ValueType → Except Fault Layout
  | .scalar kind => .ok (ofScalar w kind)
  | .tuple fields =>
    match tupleParts? w 0 fields with
    | .error fault => .error fault
    | .ok parts => record? parts

/-- The parts of a tuple on a machine, named from `index` on. -/
def tupleParts? (w index : Nat) : List ValueType → Except Fault (List (String × Layout))
  | [] => .ok []
  | field :: rest =>
    match ofType? w field with
    | .error fault => .error fault
    | .ok layout => (tupleParts? w (index + 1) rest).map ((toString index, layout) :: ·)

end

/-- A part of a record is not larger than the record. -/
theorem size_le_size_record {parts : List (String × Layout)} (h : ∀ part ∈ parts, 0 < part.2.align)
    {part : String × Layout} (hm : part ∈ parts) : part.2.size ≤ (record parts).size := by
  rw [← map_place 0 parts] at hm
  obtain ⟨field, hf, rfl⟩ := List.mem_map.mp hm
  have hstop := stop_le_placedEnd h 0 field hf
  have hsize : placedEnd 0 parts ≤ (record parts).size := le_alignTo (maxAlign_pos parts)
  exact Nat.le_trans (Nat.le_add_left ..) (Nat.le_trans hstop hsize)

theorem record?_eq_ok {parts : List (String × Layout)} (ha : ∀ part ∈ parts, 0 < part.2.align)
    {layout : Layout} :
    record? parts = .ok layout ↔ layout = record parts ∧ layout.size ≤ maxSize := by
  rw [record?_eq_ok_iff]
  constructor
  · rintro ⟨-, hs, rfl⟩
    exact ⟨rfl, hs⟩
  · rintro ⟨rfl, hs⟩
    exact ⟨ha, hs, rfl⟩

section Width

variable {w : Nat}

theorem size_ofScalar_le (hm : w ≤ maxSize) (kind : Scalar) : (ofScalar w kind).size ≤ maxSize := by
  cases kind with
  | ptr => exact hm
  | _ => exact Nat.le_trans (m := 8) (by simp [ofScalar]) (by decide)

theorem align_scalarParts_pos (hw : 0 < w) (fields : List (String × Scalar)) :
    ∀ part ∈ scalarParts w fields, 0 < part.2.align := by
  intro part hp
  obtain ⟨field, -, rfl⟩ := List.mem_map.mp hp
  exact align_ofScalar_pos hw field.2

mutual

/-- The layout of a value type is given on a machine if it fits it. -/
theorem ofType?_eq_ok_iff (hw : 0 < w) (hm : w ≤ maxSize) : ∀ (type : ValueType) {layout : Layout},
    ofType? w type = .ok layout ↔ layout = ofType w type ∧ layout.size ≤ maxSize
  | .scalar kind, layout => by
    rw [ofType?, ofType, Except.ok.injEq]
    constructor
    · rintro rfl
      exact ⟨rfl, size_ofScalar_le hm kind⟩
    · exact fun h => h.1.symm
  | .tuple fields, layout => by
    rw [ofType?, ofType, ← record?_eq_ok (align_tupleParts_pos hw)]
    cases hp : tupleParts? w 0 fields with
    | ok parts =>
      obtain ⟨rfl, -⟩ := (tupleParts?_eq_ok_iff hw hm fields).mp hp
      exact Iff.rfl
    | error fault =>
      -- a part that does not fit keeps the whole from fitting
      refine ⟨nofun, fun h => ?_⟩
      obtain ⟨-, hsize, rfl⟩ := record?_eq_ok_iff.mp h
      have hparts := (tupleParts?_eq_ok_iff hw hm fields).mpr ⟨rfl, fun part hp =>
        Nat.le_trans (size_le_size_record (align_tupleParts_pos hw) hp) hsize⟩
      rw [hp] at hparts
      cases hparts

theorem tupleParts?_eq_ok_iff (hw : 0 < w) (hm : w ≤ maxSize) : ∀ (types : List ValueType)
    {index : Nat} {parts : List (String × Layout)},
    tupleParts? w index types = .ok parts ↔
      parts = tupleParts w index types ∧ ∀ part ∈ parts, part.2.size ≤ maxSize
  | [], index, parts => by
    rw [tupleParts?, tupleParts, Except.ok.injEq]
    constructor
    · rintro rfl
      exact ⟨rfl, nofun⟩
    · exact fun h => h.1.symm
  | type :: rest, index, parts => by
    rw [tupleParts?, tupleParts]
    constructor
    · intro h
      cases hl : ofType? w type with
      | error fault => rw [hl] at h; cases h
      | ok layout =>
        rw [hl] at h
        cases hr : tupleParts? w (index + 1) rest with
        | error fault => rw [hr] at h; cases h
        | ok others =>
          rw [hr] at h
          cases h
          obtain ⟨rfl, hsize⟩ := (ofType?_eq_ok_iff hw hm type).mp hl
          obtain ⟨rfl, hsizes⟩ := (tupleParts?_eq_ok_iff hw hm rest).mp hr
          exact ⟨rfl, List.forall_mem_cons.mpr ⟨hsize, hsizes⟩⟩
    · rintro ⟨rfl, hsizes⟩
      rw [List.forall_mem_cons] at hsizes
      rw [(ofType?_eq_ok_iff hw hm type).mpr ⟨rfl, hsizes.1⟩,
        (tupleParts?_eq_ok_iff hw hm rest).mpr ⟨rfl, hsizes.2⟩]
      rfl

end

end Width

end Layout

/-! ### What a query is about -/

/-- What a query asks the layout of. -/
inductive LayoutSubject
  /-- A value type. -/
  | value (type : ValueType)
  /-- A record of named scalars. -/
  | scalars (fields : List (String × Scalar))

namespace LayoutSubject

/-- The layout that is asked for. -/
def layout (w : Nat) : LayoutSubject → Layout
  | value type => Layout.ofType w type
  | scalars fields => Layout.record (Layout.scalarParts w fields)

/-- The layout that is asked for, on a machine and with nothing remembered. -/
def layout? (w : Nat) : LayoutSubject → Except Fault Layout
  | value type => Layout.ofType? w type
  | scalars fields => Layout.record? (Layout.scalarParts w fields)

/-- **A layout is given on a machine** if it fits it. -/
theorem layout?_eq_ok_iff {w : Nat} (hw : 0 < w) (hm : w ≤ Layout.maxSize) (subject : LayoutSubject)
    {layout : Layout} :
    subject.layout? w = .ok layout ↔ layout = subject.layout w ∧ layout.size ≤ Layout.maxSize := by
  cases subject with
  | value type => exact Layout.ofType?_eq_ok_iff hw hm type
  | scalars fields => exact Layout.record?_eq_ok (Layout.align_scalarParts_pos hw fields)

end LayoutSubject

/-- What a query is about, if there is such a layout. -/
def LayoutQuery.subject : LayoutQuery → Option LayoutSubject
  | .value type => some (.value type)
  | .yields kind => some (.value kind.yields)
  | .state (.enumerate _) | .enumerateState => some (.scalars [("count", .i64), ("source", .ptr)])
  | .state (.zip sources) =>
    some (.scalars (Layout.sourceFields 0 (List.replicate sources.length .ptr)))
  | .zipState sources => some (.scalars (Layout.sourceFields 0 (List.replicate sources .ptr)))
  | .enumerateArgs kinds | .args (.enumerate _) kinds =>
    some (.scalars (["source", "start"].zip kinds))
  | .zipArgs kinds | .args (.zip _) kinds => some (.scalars (Layout.sourceFields 0 kinds))
  | .state (.generator ..) | .state (.external _) => none
  | .args (.generator ..) _ | .args (.external _) _ => none

/-- The answer to a query with nothing remembered. -/
def LayoutQuery.plain (w : Nat) (query : LayoutQuery) : Except Fault (Option Layout) :=
  match query.subject with
  | none => .ok none
  | some subject => (subject.layout? w).map some

/-! ### Caches -/

namespace LayoutCache

/-- All that is remembered is right. -/
structure Faithful (w : Nat) (cache : LayoutCache) : Prop where
  width : cache.pointerBytes = w
  values : ∀ {type : ValueType} {layout : Layout}, cache.values.lookup type = some layout →
    Layout.ofType? w type = .ok layout
  enumerateState : ∀ {layout : Layout}, cache.enumerateState = some layout →
    Layout.record? (Layout.enumerateStateParts w) = .ok layout
  zipStates : ∀ {sources : Nat} {layout : Layout}, cache.zipStates.lookup sources = some layout →
    Layout.record? (Layout.zipStateParts w sources) = .ok layout

theorem faithful_fresh (w : Nat) : (fresh w).Faithful w where
  width := rfl
  values h := by cases h
  enumerateState h := by cases h
  zipStates h := by cases h

/-- A cache answers as it should, and stays faithful. -/
inductive Gives (w : Nat) {α : Type} : Cached α → Except Fault α → Prop
  | ok {answer : α} {cache : LayoutCache} (h : cache.Faithful w) :
    Gives w (.ok (answer, cache)) (.ok answer)
  | fault {fault : Fault} : Gives w (.error fault) (.error fault)

variable {w : Nat} {cache : LayoutCache}

theorem Gives.map {α β : Type} {cached : Cached α} {expected : Except Fault α}
    (h : Gives w cached expected) (f : α → β) :
    Gives w (cached.map fun (answer, cache) => (f answer, cache)) (expected.map f) := by
  cases h with
  | ok h => exact .ok h
  | fault => exact .fault

theorem Gives.map_fst {α : Type} {cached : Cached α} {expected : Except Fault α}
    (h : Gives w cached expected) : cached.map Prod.fst = expected := by
  cases h with
  | ok => rfl
  | fault => rfl

/-- A right answer is remembered. -/
theorem gives_rememberValue {type : ValueType} {cached : Cached Layout}
    (h : Gives w cached (Layout.ofType? w type)) :
    Gives w (rememberValue type cached) (Layout.ofType? w type) := by
  generalize he : Layout.ofType? w type = expected at h ⊢
  cases h with
  | fault => exact .fault
  | @ok layout cache h =>
    refine .ok ⟨h.width, fun {type' layout'} hl => ?_, h.enumerateState, h.zipStates⟩
    rw [List.lookup_cons] at hl
    split at hl
    · next heq =>
      cases hl
      rw [eq_of_beq heq, he]
    · exact h.values hl

/-- A record that is asked for is given as it is. -/
theorem Faithful.gives_askRecord (h : cache.Faithful w) (parts : List (String × Layout)) :
    Gives w (cache.askRecord parts) (Layout.record? parts) := by
  rw [askRecord]
  cases Layout.record? parts with
  | ok layout => exact .ok h
  | error fault => exact .fault

theorem Faithful.gives_askEnumerateState (h : cache.Faithful w) :
    Gives w cache.askEnumerateState (Layout.record? (Layout.enumerateStateParts w)) := by
  obtain rfl := h.width
  rw [askEnumerateState]
  split
  · next layout hl =>
    rw [h.enumerateState hl]
    exact .ok h
  · cases hr : Layout.record? (Layout.enumerateStateParts cache.pointerBytes) with
    | error fault => exact .fault
    | ok layout =>
      refine .ok ⟨rfl, h.values, fun hl => ?_, h.zipStates⟩
      cases hl
      exact hr

theorem Faithful.gives_askZipState (h : cache.Faithful w) (sources : Nat) :
    Gives w (cache.askZipState sources) (Layout.record? (Layout.zipStateParts w sources)) := by
  obtain rfl := h.width
  rw [askZipState]
  split
  · next layout hl =>
    rw [h.zipStates hl]
    exact .ok h
  · cases hr : Layout.record? (Layout.zipStateParts cache.pointerBytes sources) with
    | error fault => exact .fault
    | ok layout =>
      refine .ok ⟨rfl, h.values, h.enumerateState, fun {sources' layout'} hl => ?_⟩
      rw [List.lookup_cons] at hl
      split at hl
      · next heq =>
        cases hl
        rw [eq_of_beq heq, hr]
      · exact h.zipStates hl

mutual

/-- **A faithful cache** gives the layout of a value type as if nothing were remembered. -/
theorem gives_value : ∀ (type : ValueType) {cache : LayoutCache}, cache.Faithful w →
    Gives w (cache.value type) (Layout.ofType? w type)
  | .scalar kind, cache, h => by
    rw [value]
    split
    · next layout hl =>
      rw [h.values hl]
      exact .ok h
    · refine gives_rememberValue ?_
      rw [Layout.ofType?, h.width]
      exact .ok h
  | .tuple fields, cache, h => by
    rw [value]
    split
    · next layout hl =>
      rw [h.values hl]
      exact .ok h
    · refine gives_rememberValue ?_
      rw [Layout.ofType?]
      have hparts := gives_parts fields 0 h
      generalize cache.parts 0 fields = cached, Layout.tupleParts? w 0 fields = expected
        at hparts ⊢
      cases hparts with
      | fault => exact .fault
      | @ok parts cache h => exact h.gives_askRecord parts

theorem gives_parts : ∀ (types : List ValueType) (index : Nat) {cache : LayoutCache},
    cache.Faithful w → Gives w (cache.parts index types) (Layout.tupleParts? w index types)
  | [], index, cache, h => by
    rw [parts, Layout.tupleParts?]
    exact .ok h
  | type :: rest, index, cache, h => by
    rw [parts, Layout.tupleParts?]
    have hvalue := gives_value type h
    generalize cache.value type = cached, Layout.ofType? w type = expected at hvalue ⊢
    cases hvalue with
    | fault => exact .fault
    | @ok layout cache h =>
      exact (gives_parts rest (index + 1) h).map ((toString index, layout) :: ·)

end

/-- **A faithful cache** answers every query as if nothing were remembered. -/
theorem Faithful.gives_answer (h : cache.Faithful w) (query : LayoutQuery) :
    Gives w (cache.answer query) (query.plain w) := by
  have hzip : ∀ sources, Gives w (answer.found (cache.askZipState sources))
      ((LayoutSubject.scalars (Layout.sourceFields 0 (List.replicate sources .ptr))).layout? w
        |>.map some) := by
    intro sources
    rw [LayoutSubject.layout?, ← Layout.sourceParts_eq_scalarParts]
    exact (h.gives_askZipState sources).map some
  have henumerateArgs : ∀ kinds, Gives w (answer.found
      (cache.askRecord (Layout.enumerateArgParts cache.pointerBytes kinds)))
      ((LayoutSubject.scalars (["source", "start"].zip kinds)).layout? w |>.map some) := by
    intro kinds
    rw [h.width, LayoutSubject.layout?, ← Layout.enumerateArgParts_eq_scalarParts]
    exact (h.gives_askRecord _).map some
  have hzipArgs : ∀ kinds, Gives w (answer.found
      (cache.askRecord (Layout.zipArgParts cache.pointerBytes kinds)))
      ((LayoutSubject.scalars (Layout.sourceFields 0 kinds)).layout? w |>.map some) := by
    intro kinds
    rw [h.width, LayoutSubject.layout?, ← Layout.sourceParts_eq_scalarParts]
    exact (h.gives_askRecord _).map some
  cases query with
  | value type => exact (gives_value type h).map some
  | yields kind => exact (gives_value kind.yields h).map some
  | enumerateState => exact h.gives_askEnumerateState.map some
  | zipState sources => exact hzip sources
  | enumerateArgs kinds => exact henumerateArgs kinds
  | zipArgs kinds => exact hzipArgs kinds
  | state kind =>
    cases kind with
    | enumerate source => exact h.gives_askEnumerateState.map some
    | zip sources => exact hzip sources.length
    | generator | external => exact .ok h
  | args kind kinds =>
    cases kind with
    | enumerate source => exact henumerateArgs kinds
    | zip sources => exact hzipArgs kinds
    | generator | external => exact .ok h

/-- **A faithful cache** answers queries in turn as if nothing were remembered. -/
theorem Faithful.gives_answers (h : cache.Faithful w) (asked : List LayoutQuery) :
    Gives w (cache.answers asked) (asked.mapM (LayoutQuery.plain w)) := by
  induction asked generalizing cache with
  | nil => exact .ok h
  | cons query rest ih =>
    rw [answers, List.mapM_cons]
    have hanswer := h.gives_answer query
    generalize cache.answer query = cached, query.plain w = expected at hanswer ⊢
    cases hanswer with
    | fault => exact .fault
    | @ok layout cache h =>
      -- the cache behind an answer is faithful again
      exact (ih h).map (layout :: ·)

/-- **What was asked before does not matter.**  Whatever is asked of a cache in turn, in any order and
any number of times, every answer is the one that a fresh cache gives to that query alone.  The first
query that faults alone is the one that faults here, and in the same way. -/
theorem answers_eq_alone (w : Nat) (asked : List LayoutQuery) :
    ((fresh w).answers asked).map Prod.fst =
      asked.mapM fun query => ((fresh w).answer query).map Prod.fst := by
  rw [((faithful_fresh w).gives_answers asked).map_fst]
  congr 1
  funext query
  exact ((faithful_fresh w).gives_answer query).map_fst.symm

/-- Answering queries keeps a cache faithful. -/
theorem Faithful.of_answers {asked : List LayoutQuery} {given : List (Option Layout)}
    {after : LayoutCache} (h : cache.Faithful w) (ha : cache.answers asked = .ok (given, after)) :
    after.Faithful w := by
  have hanswers := h.gives_answers asked
  rw [ha] at hanswers
  generalize asked.mapM (LayoutQuery.plain w) = expected at hanswers
  cases hanswers with
  | ok hafter => exact hafter

/-- A cache for pointers of some width that has answered some queries. -/
def Reached (w : Nat) (cache : LayoutCache) : Prop :=
  ∃ asked given, (fresh w).answers asked = .ok (given, cache)

theorem Reached.faithful (h : cache.Reached w) : cache.Faithful w := by
  obtain ⟨asked, given, h⟩ := h
  exact (faithful_fresh w).of_answers h

/-- **A layout that is asked for** is given if it fits the machine, whatever was asked before. -/
theorem Reached.answer_eq_ok_iff (h : cache.Reached w) (hw : 0 < w) (hm : w ≤ Layout.maxSize)
    {query : LayoutQuery} {subject : LayoutSubject} (hs : query.subject = some subject)
    {layout : Layout} :
    (∃ after, cache.answer query = .ok (some layout, after)) ↔
      layout = subject.layout w ∧ layout.size ≤ Layout.maxSize := by
  rw [← subject.layout?_eq_ok_iff hw hm]
  have hanswer := h.faithful.gives_answer query
  rw [LayoutQuery.plain, hs] at hanswer
  dsimp only at hanswer
  generalize cache.answer query = cached at hanswer ⊢
  cases hl : subject.layout? w with
  | error fault =>
    rw [hl] at hanswer
    cases hanswer
    constructor
    · rintro ⟨_, h⟩
      cases h
    · exact nofun
  | ok known =>
    rw [hl] at hanswer
    cases hanswer with
    | @ok _ after _ =>
      constructor
      · rintro ⟨_, h⟩
        cases h
        rfl
      · intro h
        cases h
        exact ⟨after, rfl⟩

end LayoutCache

end PullIter
