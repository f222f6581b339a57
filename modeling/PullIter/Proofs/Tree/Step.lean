import PullIter.Proofs.Exec.Runtime
import PullIter.Proofs.Store.Effects
import PullIter.Proofs.Tree.Held

/-!
# One step of a tree

Advancing an iterator over a tree gives the first value of what the tree means and leaves an
iterator over the rest, or it tells how the tree ends.  It works on the objects of the tree only.

## Main definitions

* `Answers` — a step answers as a trace says.
* `Advances` — what advancing an iterator over a tree does.
* `Round` — what one round over the sources of a zip does.

## Main results

* `advances_array`, `advances_range`, `advances_generator` — the leaves.
* `IterAt.advances` — **one step of a tree.**
-/

namespace PullIter.Tree

open Store (Frame Only)
open Exec (zipFields payloadSlot)

/-- A step answers as a trace says: with the first value, or with how it ends. -/
def Answers (layout : Layout) (step : Step) : Trace → Prop
  | (value :: _, _) => step.status = Status.ok ∧ layout.Stores step.writes value
  | ([], .exhausted) => step.status = Status.stop
  | ([], .failed code) => step.status = code ∧ Status.isFailure code = true

namespace Answers

variable {layout : Layout} {step : Step} {trace : Trace}

theorem ok_eq (h : Answers layout step trace) :
    decide (step.status = Status.ok) = !trace.1.isEmpty := by
  obtain ⟨values, ending⟩ := trace
  cases values with
  | cons => exact decide_eq_true h.1
  | nil => cases ending with
    | exhausted =>
      rw [show step.status = Status.stop from h]
      rfl
    | failed code =>
      obtain ⟨rfl, hfail⟩ := h
      refine decide_eq_false fun hok => ?_
      rw [hok] at hfail
      cases hfail

theorem isFailure_eq (h : Answers layout step trace) : step.status.isFailure = trace.hasFailed := by
  obtain ⟨values, ending⟩ := trace
  cases values with
  | cons =>
    rw [h.1]
    rfl
  | nil => cases ending with
    | exhausted =>
      rw [show step.status = Status.stop from h]
      rfl
    | failed code =>
      obtain ⟨rfl, hfail⟩ := h
      rw [hfail]
      rfl

theorem failed_eq (h : Answers layout step trace) (hf : trace.hasFailed = true) :
    trace.2 = .failed step.status := by
  obtain ⟨values, ending⟩ := trace
  cases values with
  | cons => cases hf
  | nil => cases ending with
    | exhausted => cases hf
    | failed code => exact congrArg LoopExit.failed h.1.symm

/-- How a trace ends is told by the status alone. -/
theorem of_status_eq {layout' : Layout} {step' : Step} {ending : LoopExit}
    (h : Answers layout step ([], ending)) (hs : step'.status = step.status) :
    Answers layout' step' ([], ending) := by
  cases ending with
  | exhausted => exact hs.trans h
  | failed code => exact ⟨hs.trans h.1, h.2⟩

end Answers

/-- What advancing an iterator over a tree does. -/
structure Advances (unit : Compiled) (arrays : List UInt64) (tree : Tree) (iterator : UInt64)
    (own : List UInt64) (store : Store) (step : Step) : Prop where
  runs : Exec.next unit.provided tree.kind iterator store = .ok step
  frame : Frame (· ∈ own) store step.store
  answers : Answers (Entry.yieldLayout tree.kind) step tree.den
  /-- Behind a value there is an iterator over the rest. -/
  rest : ∀ value trace, tree.den = Trace.cons value trace →
    ∃ left, left.kind = tree.kind ∧ left.den = trace ∧ IterAt arrays step.store left iterator own

variable {unit : Compiled} {arrays : List UInt64} {store : Store}

/-! ### Leaves -/

/-- A linked routine does what the routine does, and the call is noted. -/
theorem linkedNext_of_next (provider : Provider) {iterator : UInt64} {step : Step}
    (h : provider.next iterator store = .ok step) : provider.linkedNext iterator store =
      .ok { step with store := step.store.called (.next provider iterator step.status) } := by
  rw [Provider.linkedNext, h]
  rfl

theorem trace_cons_inj {value value' : Value} {trace trace' : Trace}
    (h : Trace.cons value trace = Trace.cons value' trace') : value = value' ∧ trace = trace' := by
  obtain ⟨values, ending⟩ := trace
  obtain ⟨values', ending'⟩ := trace'
  simp only [Trace.cons, Prod.mk.injEq, List.cons.injEq] at h
  obtain ⟨⟨rfl, rfl⟩, rfl⟩ := h
  exact ⟨rfl, rfl⟩

/-- An array answers with the element at the index, and counts the call in any case. -/
theorem advances_array (hr : unit.RunsRuntime) {left : List Int64} {iterator : UInt64}
    {own : List UInt64} (h : IterAt arrays store (.array left) iterator own) :
    ∃ step, Advances unit arrays (.array left) iterator own store step := by
  cases h with
  | @array iterator block words elements left calls cell source found short rest =>
  have hne : words.peek 0 ≠ iterator := by
    intro heq
    rw [heq, cell] at found
    cases found
  have hcount : Frame (· ∈ [iterator]) store
      (store.set (words.peek 0) (.array elements (calls + 1))) := Store.frame_set_array found
  have hlayout : Entry.yieldLayout Kind.array = .scalar 8 8 .i64 := rfl
  cases hget : elements[(words.peek 1).toNat]? with
  | none =>
    have hnil : left = [] := by
      rw [rest, List.drop_eq_nil_iff]
      exact List.getElem?_eq_none_iff.mp hget
    have hnext : store.arrayNext iterator =
        .ok ⟨Status.stop, [], store.set (words.peek 0) (.array elements (calls + 1))⟩ := by
      simp only [Store.arrayNext, Store.blockAt_of_get? cell, found, hget]
    refine ⟨_, (Compiled.next_array hr _ _).trans (linkedNext_of_next _ hnext),
      hcount.trans (Store.frame_of_cells_eq rfl rfl), ?_, ?_⟩
    · rw [den, hnil]
      rfl
    · intro value trace hden
      rw [den, hnil] at hden
      cases hden
  | some element =>
    obtain ⟨hlt, helement⟩ := List.getElem?_eq_some_iff.mp hget
    have hcons : left = element :: elements.drop ((words.peek 1).toNat + 1) := by
      rw [rest, List.drop_eq_getElem_cons hlt, helement]
    have hnext : store.arrayNext iterator = .ok ⟨Status.ok, [.word element],
        (store.set (words.peek 0) (.array elements (calls + 1))).set iterator
          (.block block (words.poke 1 (words.peek 1 + 1)))⟩ := by
      simp only [Store.arrayNext, Store.blockAt_of_get? cell, found, hget]
    have hcell : (store.set (words.peek 0) (.array elements (calls + 1))).get? iterator =
        some (.block block words) := by
      rw [Store.get?_set_of_ne hne.symm, cell]
    refine ⟨_, (Compiled.next_array hr _ _).trans (linkedNext_of_next _ hnext),
      (hcount.trans (Store.frame_set _ (List.mem_singleton_self _))).trans
        (Store.frame_of_cells_eq rfl rfl), ?_, ?_⟩
    · rw [den, hcons]
      exact ⟨rfl, Layout.stores_word element⟩
    · intro value trace hden
      rw [den, hcons] at hden
      obtain ⟨-, rfl⟩ := trace_cons_inj
        (show Trace.cons (.i64 element) ((elements.drop _).map .i64, .exhausted) = _ from hden)
      refine ⟨.array (elements.drop ((words.peek 1).toNat + 1)), rfl, rfl, ?_⟩
      -- the index is that of an element, so it does not wrap
      have hindex : (words.peek 1 + 1).toNat = (words.peek 1).toNat + 1 := by
        rw [UInt64.toNat_add]
        exact Nat.mod_eq_of_lt (show (words.peek 1).toNat + 1 < UInt64.size by omega)
      have hpeek : (words.poke 1 (words.peek 1 + 1)).peek 0 = words.peek 0 :=
        Words.peek_poke_of_ne (by decide) _ _
      have hfound : ((store.set (words.peek 0) (.array elements (calls + 1))).set iterator
          (.block block (words.poke 1 (words.peek 1 + 1)))).get?
            ((words.poke 1 (words.peek 1 + 1)).peek 0) = some (.array elements (calls + 1)) := by
        rw [hpeek, Store.get?_set_of_ne hne, Store.get?_set_self found]
      refine .array (Store.get?_set_self hcell) ?_ hfound short ?_
      · rw [hpeek]
        exact source
      · rw [Words.peek_poke_self, hindex]

/-- The numbers that a range has still to give: the first is in one word, and the bound in another. -/
def rangeLeft (words : Words) : List Int64 :=
  rangeValues (words.peek 0).toInt64 (words.peek 1).toInt64

/-- **A range** gives the first of its numbers and keeps the others, and counts the call in any
case. -/
theorem exists_rangeNext {range : UInt64} {block : Block} {words : Words}
    (cell : store.get? range = some (.block block words)) :
    ∃ step words', store.rangeNext range = .ok step ∧
      step.store = store.set range (.block block words') ∧ rangeLeft words' = (rangeLeft words).tail ∧
      Answers (.scalar 8 8 .i64) step ((rangeLeft words).map .i64, .exhausted) := by
  have hzero : (words.poke Store.rangeCallsIndex (words.peek Store.rangeCallsIndex + 1)).peek 0 =
      words.peek 0 := Words.peek_poke_of_ne (by decide) _ _
  have hone : (words.poke Store.rangeCallsIndex (words.peek Store.rangeCallsIndex + 1)).peek 1 =
      words.peek 1 := Words.peek_poke_of_ne (by decide) _ _
  by_cases hle : (words.peek 1).toInt64 ≤ (words.peek 0).toInt64
  · have hnext : store.rangeNext range = .ok ⟨Status.stop, [], store.set range (.block block
        (words.poke Store.rangeCallsIndex (words.peek Store.rangeCallsIndex + 1)))⟩ := by
      simp only [Store.rangeNext, Store.blockAt_of_get? cell, hone, if_pos hle]
    refine ⟨_, _, hnext, rfl, ?_, ?_⟩
    · rw [rangeLeft, rangeLeft, hzero, hone, rangeValues_of_le hle]
      rfl
    · rw [rangeLeft, rangeValues_of_le hle]
      rfl
  · have hlt : (words.peek 0).toInt64 < (words.peek 1).toInt64 := Int64.not_le.mp hle
    have hnext : store.rangeNext range = .ok ⟨Status.ok, [.word (words.peek 0).toInt64],
        store.set range (.block block
          ((words.poke Store.rangeCallsIndex (words.peek Store.rangeCallsIndex + 1)).poke 0
            (words.peek 0 + 1)))⟩ := by
      simp only [Store.rangeNext, Store.blockAt_of_get? cell, hone, if_neg hle]
    refine ⟨_, _, hnext, rfl, ?_, ?_⟩
    · rw [rangeLeft, rangeLeft, Words.peek_poke_self, Words.peek_poke_of_ne (by decide), hone,
        UInt64.toInt64_add, rangeValues_of_lt hlt]
      rfl
    · rw [rangeLeft, rangeValues_of_lt hlt]
      exact ⟨rfl, Layout.stores_word _⟩

/-- A range answers with its next number. -/
theorem advances_range (hr : unit.RunsRuntime) {start stop : Int64} {iterator : UInt64}
    {own : List UInt64} (h : IterAt arrays store (.range start stop) iterator own) :
    ∃ step, Advances unit arrays (.range start stop) iterator own store step := by
  cases h with
  | @range iterator block words start stop cell first last =>
  obtain ⟨step, words', hnext, hafter, hleft, hanswers⟩ := exists_rangeNext cell
  have hvalues : rangeLeft words = rangeValues start stop := by rw [rangeLeft, first, last]
  rw [hvalues] at hleft hanswers
  have hcell : (store.set iterator (.block block words')).get? iterator =
      some (.block block words') := Store.get?_set_self cell
  refine ⟨_, (Compiled.next_range hr _ _).trans (linkedNext_of_next _ hnext), ?_, hanswers, ?_⟩
  · rw [hafter]
    exact (Store.frame_set _ (List.mem_singleton_self _)).trans (Store.frame_of_cells_eq rfl rfl)
  · intro value trace hden
    -- the two words of the range are what is left of it
    have hrest : IterAt arrays
        (step.store.called (.next (.intrinsic .rangeNext) iterator step.status))
        (.range (words'.peek 0).toInt64 (words'.peek 1).toInt64) iterator [iterator] := by
      refine @IterAt.range _ _ _ block _ _ _ ?_ rfl rfl
      rw [hafter]
      exact hcell
    refine ⟨.range (words'.peek 0).toInt64 (words'.peek 1).toInt64, rfl, ?_, hrest⟩
    cases hnumbers : rangeValues start stop with
    | nil =>
      rw [den, hnumbers] at hden
      cases hden
    | cons number numbers =>
      rw [den, hnumbers] at hden
      obtain ⟨-, rfl⟩ := trace_cons_inj
        (show Trace.cons (.i64 number) (numbers.map .i64, .exhausted) = _ from hden)
      rw [hnumbers] at hleft
      rw [den, show rangeValues _ _ = numbers from hleft]

/-- How a body returned. -/
def returned : Option Int32 → Resumption
  | none => .stopped
  | some code => .errored code

/-- A fresh body yields its first value. -/
theorem resume_body_of_next? {yields rest : Yields} {failure : Option Int32} {value : Int64}
    (h : yields.next? = some (value, rest)) :
    (Coroutine.start yields failure).resume = .ok (.yielded value, .start rest failure) := by
  simp only [Coroutine.resume, Coroutine.start, h]
  rfl

/-- A fresh body without values returns. -/
theorem resume_body_of_none {yields : Yields} (failure : Option Int32) (h : yields.next? = none) :
    (Coroutine.start yields failure).resume = .ok (returned failure, ⟨yields, failure, true⟩) := by
  cases failure <;> (simp only [Coroutine.resume, Coroutine.start, h]; rfl)

theorem isFinal_returned (failure : Option Int32) : (returned failure).isFinal = true := by
  cases failure <;> rfl

/-- A generator that has not ended resumes its body. -/
theorem resume_of_body {generator : Generator} {outcome : Resumption} {after : Coroutine}
    (h : generator.finished = none) (hr : generator.body.resume = .ok (outcome, after)) :
    generator.resume = .ok (outcome, ⟨after, if outcome.isFinal then some outcome else none⟩) := by
  simp only [Generator.resume, h, hr]

theorem resume_start_of_next? {yields rest : Yields} {failure : Option Int32} {value : Int64}
    (h : yields.next? = some (value, rest)) :
    (Generator.start yields failure).resume = .ok (.yielded value, .start rest failure) :=
  resume_of_body rfl (resume_body_of_next? h)

theorem resume_start_of_none {yields : Yields} (failure : Option Int32) (h : yields.next? = none) :
    (Generator.start yields failure).resume =
      .ok (returned failure, ⟨⟨yields, failure, true⟩, some (returned failure)⟩) := by
  rw [resume_of_body rfl (resume_body_of_none failure h), isFinal_returned, if_pos rfl]

/-- A body that has returned with a reserved word is answered with another one. -/
theorem answers_returned (layout : Layout) (failure : Option Int32) (writes : List Write)
    (after : Store) :
    Answers layout ⟨(returned failure).status, writes, after⟩ ([], failureExit failure) := by
  cases failure with
  | none => rfl
  | some code =>
    rw [failureExit]
    by_cases hreserved : code = Status.ok ∨ code = Status.stop
    · rw [if_pos hreserved]
      refine ⟨?_, by decide⟩
      simp only [returned, Resumption.status]
      rw [if_pos (by simpa using hreserved)]
    · rw [if_neg hreserved]
      rw [not_or] at hreserved
      refine ⟨?_, by simpa [Status.isFailure] using hreserved⟩
      simp only [returned, Resumption.status]
      rw [if_neg (by simpa using hreserved)]

/-- The iterator of a generator is advanced by resuming the generator. -/
theorem next_of_resume (hr : unit.RunsRuntime) (name : String) {handle : UInt64}
    {generator after : Generator} {outcome : Resumption}
    (cell : store.get? handle = some (.generator generator))
    (h : generator.resume = .ok (outcome, after)) :
    Exec.next unit.provided (.coroutine name) handle store = .ok
      ⟨outcome.status, Store.resumptionWrites outcome,
        (store.set handle (.generator after)).called
          (.next (.intrinsic .generatorResume) handle outcome.status)⟩ :=
  (Compiled.next_coroutine hr _ _ _).trans
    (linkedNext_of_next (.intrinsic .generatorResume) (Store.generatorNext_of_resume cell h))

/-- A generator answers with what its body yields, or with how the body returned. -/
theorem advances_generator (hr : unit.RunsRuntime) {name : String} {yields : Yields}
    {failure : Option Int32} {handle : UInt64} {own : List UInt64}
    (h : IterAt arrays store (.generator name yields failure) handle own) :
    ∃ step, Advances unit arrays (.generator name yields failure) handle own store step := by
  cases h with
  | @generator handle name yields failure cell =>
  have hframe : ∀ {generator : Generator} {call : Call}, Frame (· ∈ [handle]) store
      ((store.set handle (.generator generator)).called call) := fun {generator call} =>
    (Store.frame_set _ (List.mem_singleton_self _)).trans (Store.frame_of_cells_eq rfl rfl)
  cases hyields : yields.next? with
  | some next =>
    obtain ⟨value, pending⟩ := next
    have hcons := Yields.toList_eq_of_next? hyields
    refine ⟨_, next_of_resume hr name cell (resume_start_of_next? hyields), hframe, ?_, ?_⟩
    · rw [den, hcons]
      exact ⟨rfl, Layout.stores_word value⟩
    · intro first trace hden
      rw [den, hcons] at hden
      obtain ⟨-, rfl⟩ := trace_cons_inj
        (show Trace.cons (.i64 value) (pending.toList.map .i64, failureExit failure) = _ from hden)
      exact ⟨.generator name pending failure, rfl, rfl, .generator (Store.get?_set_self cell)⟩
  | none =>
    have hnil := (Yields.next?_eq_none_iff yields).mp hyields
    refine ⟨_, next_of_resume hr name cell (resume_start_of_none failure hyields), hframe, ?_, ?_⟩
    · rw [den, hnil]
      exact answers_returned _ failure _ _
    · intro value trace hden
      rw [den, hnil] at hden
      cases hden

/-! ### Storing what a combinator yields -/

/-- The count beside the value of a source is a pair. -/
theorem stores_enumerate {source : Kind} {ws : List Write} {value : Value}
    (h : (Entry.yieldLayout source).Stores ws value) (count : Int64) :
    (Entry.yieldLayout (.enumerate source)).Stores
      (ws.map (Write.shift (payloadSlot source)) ++ [.word count]) (.pair (.i64 count) value) := by
  have hsound : (Entry.yieldLayout (.enumerate source)).Sound := Layout.sound_ofType (by decide) _
  have hslot : 8 ≤ payloadSlot source :=
    le_alignTo (Layout.align_ofType_pos (by decide) source.yields)
  obtain ⟨size, align, hlayout⟩ := Exec.yieldLayout_enumerate source
  rw [hlayout] at hsound ⊢
  have hfields := hsound
  rw [Layout.Sound, Layout.SoundFields, Layout.SoundFields] at hfields
  obtain ⟨hcount, -, hpayload, -, -⟩ := hfields
  refine Layout.stores_struct hsound (.cons (Layout.stores_word count) ?_ (.cons h ?_ .nil)) ?_
  · intro j hj
    -- the count fills the first eight bytes, and the payload begins behind them
    have hcov : (lastByte [.word count] j).isSome :=
      Layout.covers_word count j (by rw [Layout.positions]; exact List.mem_range.mpr hj)
    rw [Nat.zero_add, lastByte_append]
    obtain ⟨byte, hbyte⟩ := Option.isSome_iff_exists.mp hcov
    rw [hbyte, Option.some_or]
  · intro j hj
    have hnone : lastByte [.word count] (payloadSlot source + j) = none := by
      refine lastByte_eq_none fun w hw hc => ?_
      rw [List.mem_singleton.mp hw] at hc
      have hlt := hc.2
      simp only [Write.stop, Write.word, length_toBytes] at hlt
      omega
    rw [lastByte_append, hnone, Option.none_or, lastByte_shift, if_pos (Nat.le_add_right ..),
      Nat.add_sub_cancel_left]
  · intro w hw
    rcases List.mem_append.mp hw with hw | hw
    · obtain ⟨v, hv, rfl⟩ := List.mem_map.mp hw
      have hle := h.within v hv
      rw [Write.stop_shift]
      omega
    · rw [List.mem_singleton.mp hw]
      simp only [Write.stop, Write.word, length_toBytes]
      rw [Layout.size_scalar] at hcount
      omega

theorem apart_zipFields (start part : Nat) (kinds : List Kind) :
    Layout.Apart start (zipFields start part kinds) :=
  Layout.apart_place (Layout.align_tupleParts_pos (by decide)) start

/-- The writes of a round fill the fields of a tuple, and stay within them. -/
structure Fits (ws : List Write) (fields : List Field) (values : List Value) : Prop where
  fills : Layout.Fills ws fields values
  within : ∀ w ∈ ws, ∃ field ∈ fields, field.offset ≤ w.offset ∧
    w.stop ≤ field.offset + field.layout.size

theorem Fits.nil : Fits [] [] [] where
  fills := .nil
  within _ hw := by cases hw

/-- What one source stores, before what the sources behind it store. -/
theorem Fits.part {start part : Nat} {kind : Kind} {kinds : List Kind} {ws first : List Write}
    {value : Value} {values : List Value}
    (h : Fits ws (zipFields (alignTo start (Entry.yieldLayout kind).align +
      (Entry.yieldLayout kind).size) (part + 1) kinds) values)
    (hstores : (Entry.yieldLayout kind).Stores first value) :
    Fits (first.map (Write.shift (alignTo start (Entry.yieldLayout kind).align)) ++ ws)
      (zipFields start part (kind :: kinds)) (value :: values) := by
  rw [Exec.zipFields_cons]
  have hapart := apart_zipFields
    (alignTo start (Entry.yieldLayout kind).align + (Entry.yieldLayout kind).size) (part + 1) kinds
  have hbehind : ∀ w ∈ ws, alignTo start (Entry.yieldLayout kind).align +
      (Entry.yieldLayout kind).size ≤ w.offset := by
    intro w hw
    obtain ⟨field, hf, hle, -⟩ := h.within w hw
    exact Nat.le_trans (hapart.le_offset field hf) hle
  refine ⟨@Layout.Fills.part _ _ ⟨toString part,
    alignTo start (Entry.yieldLayout kind).align, Entry.yieldLayout kind⟩ _ _ _
    h.fills hstores hapart hbehind, fun w hw => ?_⟩
  rcases List.mem_append.mp hw with hw | hw
  · obtain ⟨v, hv, rfl⟩ := List.mem_map.mp hw
    have hle := hstores.within v hv
    refine ⟨_, List.mem_cons_self .., Nat.le_add_right .., ?_⟩
    rw [Write.stop_shift]
    exact Nat.add_le_add_left hle _
  · obtain ⟨field, hf, hbounds⟩ := h.within w hw
    exact ⟨field, List.mem_cons_of_mem _ hf, hbounds⟩

/-- What all sources store is a tuple. -/
theorem Fits.stores_zip {ws : List Write} {kinds : List Kind} {values : List Value}
    (h : Fits ws (zipFields 0 0 kinds) values) :
    (Entry.yieldLayout (.zip kinds)).Stores ws (.tuple values) := by
  have hsound : (Entry.yieldLayout (.zip kinds)).Sound := Layout.sound_ofType (by decide) _
  obtain ⟨size, align, hlayout⟩ := Exec.yieldLayout_zip kinds
  rw [hlayout] at hsound ⊢
  refine Layout.stores_struct hsound h.fills fun w hw => ?_
  obtain ⟨field, hf, -, hstop⟩ := h.within w hw
  rw [Layout.Sound, Layout.soundFields_iff] at hsound
  exact Nat.le_trans hstop (hsound field hf).1

/-! ### Combinators -/

/-- What one round over the sources of a zip does, from a source on. -/
structure Round (arrays : List UInt64) (trees : List Tree) (words : Words) (index : Nat)
    (own : List UInt64) (fields : List Field) (valid : Bool) (store : Store) (step : Step) :
    Prop where
  frame : Frame (· ∈ own) store step.store
  /-- The first source that has failed ends the round; behind a round without a failure, every
  source has been asked. -/
  status : match (dens trees).find? Trace.hasFailed with
    | some trace => trace.2 = .failed step.status ∧ step.status.isFailure = true
    | none => step.status =
        if valid && (dens trees).all (fun trace => !trace.1.isEmpty) then Status.ok else Status.stop
  rest : ∀ parts : List (Value × Trace), dens trees = parts.map (fun part => part.2.cons part.1) →
    Fits step.writes fields (parts.map Prod.fst) ∧
    ∃ left, kinds left = kinds trees ∧ dens left = parts.map Prod.snd ∧
      ItersAt arrays step.store left words index own

/-- Every trace has a value, or one of them has ended. -/
theorem exists_parts (traces : List Trace) :
    (∃ parts : List (Value × Trace), traces = parts.map fun part => part.2.cons part.1) ∨
      ∃ trace ∈ traces, trace.1 = [] := by
  induction traces with
  | nil => exact .inl ⟨[], rfl⟩
  | cons trace rest ih =>
    obtain ⟨values, ending⟩ := trace
    cases values with
    | nil => exact .inr ⟨_, List.mem_cons_self .., rfl⟩
    | cons value values =>
      rcases ih with ⟨parts, rfl⟩ | ⟨ended, hm, hnil⟩
      · exact .inl ⟨(value, (values, ending)) :: parts, rfl⟩
      · exact .inr ⟨ended, List.mem_cons_of_mem _ hm, hnil⟩

/-- A trace without values is no value and a rest. -/
theorem nil_ne_cons {ending : LoopExit} {value : Value} {trace : Trace} :
    (([], ending) : Trace) ≠ trace.cons value := by
  intro h
  cases h

/-- Behind a value of an enumerate are the values behind one of its source, counted on. -/
theorem den_enumerate_eq_cons {source : Tree} {start : Start} {value : Value} {trace : Trace}
    (h : den (.enumerate source start) = trace.cons value) :
    ∃ (first : Value) (rest : Trace), source.den = rest.cons first ∧
      trace = (Trace.countFrom (start.count + 1) rest.1, rest.2) := by
  rw [den] at h
  cases hden : source.den with
  | mk values ending =>
    rw [hden] at h
    cases values with
    | nil => exact absurd h nil_ne_cons
    | cons first values =>
      simp only [Trace.countFrom_cons] at h
      obtain ⟨-, rfl⟩ := trace_cons_inj
        (show Trace.cons _ (Trace.countFrom (start.count + 1) values, ending) = _ from h)
      exact ⟨first, (values, ending), rfl, rfl⟩

/-- An enumerate answers as its source does, with the count beside a value. -/
theorem Answers.enumerate {source : Tree} {step : Step}
    (h : Answers (Entry.yieldLayout source.kind) step source.den) (start : Start) :
    Answers (Entry.yieldLayout (.enumerate source.kind))
      (Exec.counted start.count (payloadSlot source.kind) step) (den (.enumerate source start)) := by
  rw [den]
  cases hden : source.den with
  | mk values ending =>
    rw [hden] at h
    cases values with
    | nil => exact h.of_status_eq rfl
    | cons value values =>
      obtain ⟨hok, hstores⟩ := h
      simp only [Trace.countFrom_cons]
      refine ⟨hok, ?_⟩
      rw [Exec.counted, if_pos hok]
      exact stores_enumerate hstores start.count

/-- An enumerate moves its count and advances its source. -/
theorem advances_enumerate {source : Tree} {start : Start} {state : UInt64} {own : List UInt64}
    (ih : ∀ {store : Store} {iterator : UInt64} {own : List UInt64}, ArraysAt arrays store →
      IterAt arrays store source iterator own →
      ∃ step, Advances unit arrays source iterator own store step)
    (ha : ArraysAt arrays store) (h : IterAt arrays store (.enumerate source start) state own) :
    ∃ step, Advances unit arrays (.enumerate source start) state own store step := by
  cases h with
  | @enumerate state block words source start own cell count inner apart =>
  have hmove : Frame (Only state) store (store.set state (.block block
      (words.poke Layout.countIndex (words.peek Layout.countIndex + 1)))) :=
    Store.frame_set _ (Store.only_self state)
  have hother := Store.not_only_of_not_mem (ha.not_mem_of_block cell)
  obtain ⟨step, hstep⟩ := ih (ha.frame hmove hother)
    (inner.frame hmove hother (Store.not_only_of_not_mem apart))
  -- the count stays as it was moved
  have hcell := hstep.frame.block apart (Store.get?_set_self cell)
  refine ⟨Exec.counted start.count (payloadSlot source.kind) step, ?_, ?_,
    hstep.answers.enumerate start, fun value trace heq => ?_⟩
  · rw [kind, Exec.next_enumerate_of_get? cell, hstep.runs, count]
    rfl
  · exact (hmove.mono fun a heq => by rw [show a = state from heq]; exact List.mem_cons_self ..).trans
      (hstep.frame.mono fun a hm => List.mem_cons_of_mem _ hm)
  · obtain ⟨first, rest, hden, rfl⟩ := den_enumerate_eq_cons heq
    obtain ⟨left, hkind, hleft, hiter⟩ := hstep.rest first rest hden
    refine ⟨.enumerate left (.i64 (start.count + 1)), ?_, ?_, .enumerate hcell ?_ ?_ apart⟩
    · rw [kind, kind, hkind]
    · rw [den, hleft]
      rfl
    · rw [Words.peek_poke_self, UInt64.toInt64_add, count]
      rfl
    · rw [Words.peek_poke_of_ne (by decide)]
      exact hiter

/-- A round that its first source cuts short. -/
theorem Round.cut {tree : Tree} {trees : List Tree} {words : Words} {index : Nat} {iterator : UInt64}
    {own own' : List UInt64} {step : Step} (hstep : Advances unit arrays tree iterator own store step)
    (hfailed : tree.den.hasFailed = true) (fields : List Field) (valid : Bool) (writes : List Write) :
    Round arrays (tree :: trees) words index (own ++ own') fields valid store
      { step with writes := writes } where
  frame := hstep.frame.mono fun _ hm => List.mem_append_left _ hm
  status := by
    rw [dens, List.find?_cons_of_pos hfailed]
    exact ⟨hstep.answers.failed_eq hfailed, hstep.answers.isFailure_eq.trans hfailed⟩
  rest parts hparts := by
    cases parts with
    | nil => cases hparts
    | cons part parts =>
      rw [dens, List.map_cons, List.cons.injEq] at hparts
      rw [hparts.1] at hfailed
      cases hfailed

/-- A round that goes on behind its first source. -/
theorem Round.cons {tree : Tree} {trees : List Tree} {words : Words} {index start part : Nat}
    {own own' : List UInt64} {valid : Bool} {step last : Step}
    (hstep : Advances unit arrays tree (words.peek index) own store step)
    (hfailed : tree.den.hasFailed = false)
    (hround : Round arrays trees words (index + 1) own' (zipFields
      (alignTo start (Entry.yieldLayout tree.kind).align + (Entry.yieldLayout tree.kind).size)
      (part + 1) (kinds trees)) (valid && decide (step.status = Status.ok)) step.store last)
    (apart : ∀ a ∈ own, a ∉ own') (harrays : ∀ a ∈ arrays, a ∉ own') :
    Round arrays (tree :: trees) words index (own ++ own')
      (zipFields start part (kinds (tree :: trees))) valid store
      { last with writes := step.writes.map (Write.shift
        (alignTo start (Entry.yieldLayout tree.kind).align)) ++ last.writes } where
  frame := (hstep.frame.mono fun _ hm => List.mem_append_left _ hm).trans
    (hround.frame.mono fun _ hm => List.mem_append_right _ hm)
  status := by
    rw [dens, List.find?_cons_of_neg (by simp [hfailed]), List.all_cons, ← hstep.answers.ok_eq,
      ← Bool.and_assoc]
    exact hround.status
  rest parts hparts := by
    cases parts with
    | nil => cases hparts
    | cons head parts =>
      rw [dens, List.map_cons, List.cons.injEq] at hparts
      obtain ⟨hden, hdens⟩ := hparts
      have hanswers := hstep.answers
      rw [hden] at hanswers
      obtain ⟨-, hstores⟩ := hanswers
      obtain ⟨hfits, lefts, hkinds, hlefts, hiters⟩ := hround.rest parts hdens
      obtain ⟨left, hkind, hleft, hiter⟩ := hstep.rest head.1 head.2 hden
      -- the later sources leave the first alone
      refine ⟨hfits.part hstores, left :: lefts, ?_, ?_,
        .cons (hiter.frame hround.frame harrays apart) hiters apart⟩
      · rw [kinds, kinds, hkind, hkinds]
      · rw [dens, hleft, hlefts]
        rfl

/-- A round asks the sources one after the other. -/
theorem round_cons {tree : Tree} {trees : List Tree} {state : UInt64} {block : Block}
    {words : Words}
    (ih : ∀ {store : Store} {iterator : UInt64} {own : List UInt64}, ArraysAt arrays store →
      IterAt arrays store tree iterator own →
      ∃ step, Advances unit arrays tree iterator own store step)
    (ihs : ∀ {store : Store} {index : Nat} (start part : Nat) {own : List UInt64} (valid : Bool),
      ArraysAt arrays store → ItersAt arrays store trees words index own →
      store.get? state = some (.block block words) → state ∉ own →
      ∃ step, Exec.nextRound unit.provided (kinds trees) state index
          ((zipFields start part (kinds trees)).map Placed.offset) valid store = .ok step ∧
        Round arrays trees words index own (zipFields start part (kinds trees)) valid store step)
    {index start part : Nat} {own : List UInt64} (valid : Bool) (ha : ArraysAt arrays store)
    (h : ItersAt arrays store (tree :: trees) words index own)
    (hcell : store.get? state = some (.block block words)) (hstate : state ∉ own) :
    ∃ step, Exec.nextRound unit.provided (kinds (tree :: trees)) state index
        ((zipFields start part (kinds (tree :: trees))).map Placed.offset) valid store = .ok step ∧
      Round arrays (tree :: trees) words index own (zipFields start part (kinds (tree :: trees)))
        valid store step := by
  cases h with
  | @cons tree trees words index own own' first rest apart =>
  obtain ⟨step, hstep⟩ := ih ha first
  have hpeek := Store.peek_of_get? hcell index
  have hfail := hstep.answers.isFailure_eq
  cases hfailed : tree.den.hasFailed with
  | true =>
    rw [hfailed] at hfail
    exact ⟨_, Exec.nextRound_of_failure hpeek hstep.runs hfail, .cut hstep hfailed _ valid _⟩
  | false =>
    rw [hfailed] at hfail
    have harrays := first.not_mem ha
    have ha' := ha.frame hstep.frame harrays
    have hrest := rest.frame hstep.frame harrays fun a hm hm' => apart a hm' hm
    have hcell' := hstep.frame.block (fun hm => hstate (List.mem_append_left _ hm)) hcell
    obtain ⟨last, hlast, hround⟩ := ihs
      (alignTo start (Entry.yieldLayout tree.kind).align + (Entry.yieldLayout tree.kind).size)
      (part + 1) (valid && decide (step.status = Status.ok)) ha' hrest hcell'
      fun hm => hstate (List.mem_append_right _ hm)
    exact ⟨_, Exec.nextRound_of_not_failure hpeek hstep.runs hfail hlast,
      .cons hstep hfailed hround apart (hrest.not_mem ha')⟩

theorem parts_ne_nil {trees : List Tree} (hne : trees ≠ []) {parts : List (Value × Trace)}
    (h : dens trees = parts.map fun part => part.2.cons part.1) : parts ≠ [] := by
  rintro rfl
  cases trees with
  | nil => exact hne rfl
  | cons => cases h

/-- Behind a tuple is what is behind each of its parts. -/
theorem den_zip_eq_cons {trees : List Tree} (hne : trees ≠ []) {value : Value} {trace : Trace}
    (h : den (.zip trees) = trace.cons value) :
    ∃ parts : List (Value × Trace), dens trees = parts.map (fun part => part.2.cons part.1) ∧
      value = .tuple (parts.map Prod.fst) ∧ trace = Trace.zip (parts.map Prod.snd) := by
  rw [den] at h
  rcases exists_parts (dens trees) with ⟨parts, hparts⟩ | hended
  · rw [hparts, Trace.zip_cons (parts_ne_nil hne hparts)] at h
    obtain ⟨hvalue, htrace⟩ := trace_cons_inj h
    exact ⟨parts, hparts, hvalue.symm, htrace.symm⟩
  · rw [Trace.zip_eq_nil hended] at h
    exact absurd h nil_ne_cons

/-- What a round over all sources answers is what their zip means. -/
theorem Round.answers {trees : List Tree} {words : Words} {own : List UInt64} {step : Step}
    (hne : trees ≠ [])
    (h : Round arrays trees words 0 own (zipFields 0 0 (kinds trees)) true store step) :
    Answers (Entry.yieldLayout (.zip (kinds trees))) step (den (.zip trees)) := by
  have hstatus := h.status
  rw [Bool.true_and] at hstatus
  rcases exists_parts (dens trees) with ⟨parts, hparts⟩ | hended
  · have hnone : (dens trees).find? Trace.hasFailed = none := by
      rw [hparts, List.find?_eq_none]
      intro trace hm
      obtain ⟨part, -, rfl⟩ := List.mem_map.mp hm
      exact Bool.false_ne_true
    have hall : (dens trees).all (fun trace => !trace.1.isEmpty) = true := by
      rw [hparts, List.all_eq_true]
      intro trace hm
      obtain ⟨part, -, rfl⟩ := List.mem_map.mp hm
      rfl
    rw [hnone, hall] at hstatus
    rw [den, hparts, Trace.zip_cons (parts_ne_nil hne hparts)]
    exact ⟨hstatus, (h.rest parts hparts).1.stores_zip⟩
  · -- a source has ended: the first that has failed tells how, or else the round is exhausted
    rw [den, Trace.zip_eq_nil hended]
    cases hfind : (dens trees).find? Trace.hasFailed with
    | some trace =>
      rw [hfind] at hstatus
      rw [Option.map_some, Option.getD_some, hstatus.1]
      exact ⟨rfl, hstatus.2⟩
    | none =>
      have hall : (dens trees).all (fun trace => !trace.1.isEmpty) = false := by
        obtain ⟨trace, hm, hnil⟩ := hended
        rw [List.all_eq_false]
        exact ⟨trace, hm, by rw [hnil]; decide⟩
      rw [hfind, hall] at hstatus
      exact hstatus

/-- A zip answers with a tuple of what its sources answer with, if each has a value. -/
theorem advances_zip {tree : Tree} {trees : List Tree} {state : UInt64} {own : List UInt64}
    (ih : ∀ {store : Store} {index : Nat} (start part : Nat) {own : List UInt64} (valid : Bool)
      {block : Block} {words : Words},
      ArraysAt arrays store → ItersAt arrays store (tree :: trees) words index own →
      store.get? state = some (.block block words) → state ∉ own →
      ∃ step, Exec.nextRound unit.provided (kinds (tree :: trees)) state index
          ((zipFields start part (kinds (tree :: trees))).map Placed.offset) valid store = .ok step ∧
        Round arrays (tree :: trees) words index own (zipFields start part (kinds (tree :: trees)))
          valid store step)
    (ha : ArraysAt arrays store) (h : IterAt arrays store (.zip (tree :: trees)) state own) :
    ∃ step, Advances unit arrays (.zip (tree :: trees)) state own store step := by
  cases h with
  | @zip state block words sources own cell inner apart =>
  obtain ⟨step, hrun, hround⟩ := ih 0 0 true ha inner cell apart
  have hne : tree :: trees ≠ [] := List.cons_ne_nil _ _
  refine ⟨step, ?_, hround.frame.mono fun a hm => List.mem_cons_of_mem _ hm, hround.answers hne,
    fun value trace heq => ?_⟩
  · rw [kind, kinds, Exec.next_zip_cons, Exec.slots_zip, ← kinds]
    exact hrun
  · obtain ⟨parts, hparts, -, rfl⟩ := den_zip_eq_cons hne heq
    obtain ⟨-, lefts, hkinds, hlefts, hiters⟩ := hround.rest parts hparts
    refine ⟨.zip lefts, ?_, ?_, .zip (hround.frame.block apart cell) hiters apart⟩
    · rw [kind, kind, hkinds]
    · rw [den, hlefts]

mutual

/-- **One step of a tree.**  The induction is on the tree; advancing one source leaves the others
as they were. -/
theorem IterAt.advances (hr : unit.RunsRuntime) : ∀ (tree : Tree) {store : Store}
    {iterator : UInt64} {own : List UInt64}, ArraysAt arrays store →
    IterAt arrays store tree iterator own →
    ∃ step, Advances unit arrays tree iterator own store step
  | .array _, _, _, _, _, h => advances_array hr h
  | .range .., _, _, _, _, h => advances_range hr h
  | .generator .., _, _, _, _, h => advances_generator hr h
  | .enumerate source _, _, _, _, ha, h =>
    advances_enumerate (fun ha h => IterAt.advances hr source ha h) ha h
  | .zip [], _, _, _, _, _ =>
    ⟨_, Exec.next_zip_nil _ _ _, Store.Frame.refl _ _, rfl, fun _ _ heq => absurd heq nil_ne_cons⟩
  | .zip (tree :: trees), _, _, _, ha, h =>
    advances_zip (fun {_ _} start part {_} valid {_ _} ha h hcell hstate =>
      ItersAt.advances hr (tree :: trees) start part valid ha h hcell hstate) ha h

/-- One round of some trees. -/
theorem ItersAt.advances (hr : unit.RunsRuntime) {state : UInt64} {block : Block} {words : Words} :
    ∀ (trees : List Tree) {store : Store} {index : Nat} (start part : Nat) {own : List UInt64}
      (valid : Bool), ArraysAt arrays store → ItersAt arrays store trees words index own →
      store.get? state = some (.block block words) → state ∉ own →
      ∃ step, Exec.nextRound unit.provided (kinds trees) state index
          ((zipFields start part (kinds trees)).map Placed.offset) valid store = .ok step ∧
        Round arrays trees words index own (zipFields start part (kinds trees)) valid store step
  | [], _, _, _, _, _, valid, _, h, _, _ => by
    refine ⟨_, Exec.nextRound_nil .., Store.Frame.refl _ _, ?_, fun parts hparts => ?_⟩
    · rw [dens, List.find?_nil, List.all_nil, Bool.and_true]
    · cases parts with
      | cons => cases hparts
      | nil =>
        exact ⟨.nil, [], rfl, rfl, h⟩
  | tree :: trees, _, _, start, part, _, valid, ha, h, hcell, hstate =>
    round_cons (fun ha h => IterAt.advances hr tree ha h)
      (fun {_ _} start part {_} valid ha h hcell hstate =>
        ItersAt.advances hr trees start part valid ha h hcell hstate)
      valid ha h hcell hstate

end

end PullIter.Tree
