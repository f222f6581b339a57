import PullIter.Proofs.Tree.Drain

/-!
# Sources that are one object

An iterator that is the source of a zip several times is asked several times in a round.  It has
only one state, so a round takes the next numbers of it, one for each source.  A round for which
there are too few numbers left uses them up: it goes on over the end of the iterator, and only a
failure cuts it short.

## Main definitions

* `Remains` — what a range or a generator has still to give.
* `chunks` — the whole parts of some length that a list consists of.
* `Taken` — what a round takes from an object.

## Main results

* `Remains.exists_next` — one step of the object.
* `Remains.exists_nextRound` — one round over sources that are all the object.
* `Remains.exists_next_zip` — **one step of a zip whose sources are all the object.**
-/

namespace PullIter.Tree

open Store (Frame Only)
open Exec (zipFields)

/-- What a range or a generator has still to give: some numbers, and how they end.  It may have
been advanced before, and it may have ended. -/
inductive Remains (store : Store) : Kind → UInt64 → List Int64 → LoopExit → Prop
  | range {object : UInt64} {block : Block} {words : Words}
      (cell : store.get? object = some (.block block words)) :
      Remains store .range object (rangeLeft words) .exhausted
  | generator {object : UInt64} {name : String} {yields : Yields} {failure : Option Int32}
      (cell : store.get? object = some (.generator (.start yields failure))) :
      Remains store (.coroutine name) object yields.toList (failureExit failure)
  /-- A generator that has ended goes on telling how. -/
  | ended {object : UInt64} {name : String} {generator : Generator} {failure : Option Int32}
      (cell : store.get? object = some (.generator generator))
      (finished : generator.finished = some (returned failure)) :
      Remains store (.coroutine name) object [] (failureExit failure)

/-- The parts of a length that a list consists of; what is left behind the last is no part. -/
def chunks (n : Nat) (numbers : List Int64) : List (List Int64) :=
  (List.range (numbers.length / n)).map fun k => (numbers.drop (k * n)).take n

theorem chunks_of_lt {n : Nat} {numbers : List Int64} (h : numbers.length < n) :
    chunks n numbers = [] := by
  rw [chunks, Nat.div_eq_of_lt h]
  rfl

/-- A part, as long as there are enough numbers for one. -/
theorem chunks_of_le {n : Nat} {numbers : List Int64} (pos : 0 < n) (h : n ≤ numbers.length) :
    chunks n numbers = numbers.take n :: chunks n (numbers.drop n) := by
  have hdiv : numbers.length / n = (numbers.drop n).length / n + 1 := by
    rw [List.length_drop, Nat.div_eq_sub_div pos h]
  rw [chunks, hdiv, List.range_succ_eq_map, List.map_cons, List.map_map, Nat.zero_mul,
    List.drop_zero, chunks]
  congr 1
  apply List.map_congr_left
  intro k _
  rw [Function.comp_apply, List.drop_drop, Nat.succ_mul, Nat.add_comm n]

theorem length_chunks (n : Nat) (numbers : List Int64) :
    (chunks n numbers).length = numbers.length / n := by
  rw [chunks, List.length_map, List.length_range]

namespace Remains

variable {unit : Compiled} {store : Store} {kind : Kind} {object : UInt64} {numbers : List Int64}
  {ending : LoopExit}

/-- The object is its own iterator. -/
theorem getiterSymbol?_eq (h : Remains store kind object numbers ending) :
    kind.getiterSymbol? = none := by
  cases h with
  | range => rfl
  | generator => rfl
  | ended => rfl

theorem isSome_get? (h : Remains store kind object numbers ending) :
    (store.get? object).isSome := by
  cases h with
  | range cell => rw [cell]; rfl
  | generator cell => rw [cell]; rfl
  | ended cell => rw [cell]; rfl

/-- Whoever works on other objects takes nothing from this one. -/
theorem frame {theirs : UInt64 → Prop} {after : Store} (h : Remains store kind object numbers ending)
    (hf : Frame theirs store after) (hobject : ¬theirs object) :
    Remains after kind object numbers ending := by
  cases h with
  | range cell => exact .range (hf.block hobject cell)
  | generator cell => exact .generator (hf.generator hobject cell)
  | ended cell finished => exact .ended (hf.generator hobject cell) finished

theorem length_le_rounds (h : Remains store kind object numbers ending) :
    numbers.length ≤ store.rounds := by
  cases h with
  | @range _ _ words =>
    have hlt := length_rangeValues_lt (words.peek 0).toInt64 (words.peek 1).toInt64
    rw [rangeLeft, Store.rounds]
    omega
  | @generator _ _ yields _ cell =>
    have hvalues : yields.count ≤ store.rounds := values_le_rounds cell
    rw [Yields.length_toList]
    exact hvalues
  | ended => exact Nat.zero_le _

/-- **One step of the object** gives the first number, or tells how the numbers end, and leaves the
others. -/
theorem exists_next (hr : unit.RunsRuntime) (h : Remains store kind object numbers ending) :
    ∃ step, Exec.next unit.provided kind object store = .ok step ∧
      Frame (Only object) store step.store ∧
      Answers (Entry.yieldLayout kind) step (numbers.map .i64, ending) ∧
      Remains step.store kind object numbers.tail ending := by
  have hframe : ∀ {cell : Cell} {call : Call},
      Frame (Only object) store ((store.set object cell).called call) := fun {cell call} =>
    (Store.frame_set _ (Store.only_self object)).trans (Store.frame_of_cells_eq rfl rfl)
  cases h with
  | @range _ block words cell =>
    obtain ⟨step, words', hnext, hafter, hleft, hanswers⟩ := exists_rangeNext cell
    refine ⟨_, (Compiled.next_range hr _ _).trans (linkedNext_of_next _ hnext), ?_, hanswers, ?_⟩
    · rw [hafter]
      exact hframe
    · rw [← hleft, hafter]
      exact .range (Store.get?_set_self cell)
  | @generator _ name yields failure cell =>
    cases hyields : yields.next? with
    | some next =>
      obtain ⟨value, pending⟩ := next
      rw [Yields.toList_eq_of_next? hyields]
      exact ⟨_, next_of_resume hr name cell (resume_start_of_next? hyields), hframe,
        ⟨rfl, Layout.stores_word value⟩, .generator (Store.get?_set_self cell)⟩
    | none =>
      rw [(Yields.next?_eq_none_iff yields).mp hyields]
      exact ⟨_, next_of_resume hr name cell (resume_start_of_none failure hyields), hframe,
        answers_returned _ failure _ _, .ended (Store.get?_set_self cell) rfl⟩
  | @ended _ name generator failure cell finished =>
    exact ⟨_, next_of_resume hr name cell (Generator.resume_of_finished finished), hframe,
      answers_returned _ failure _ _, .ended (Store.get?_set_self cell) finished⟩

end Remains

/-! ### Rounds -/

/-- What a round takes from an object that is asked a number of times. -/
structure Taken (kind : Kind) (object : UInt64) (numbers : List Int64) (ending : LoopExit) (n : Nat)
    (fields : List Field) (valid : Bool) (store : Store) (step : Step) : Prop where
  frame : Frame (Only object) store step.store
  left : Remains step.store kind object (numbers.drop n) ending
  /-- There is a number for each source. -/
  full : n ≤ numbers.length → step.status = (if valid then Status.ok else Status.stop) ∧
    Fits step.writes fields ((numbers.take n).map .i64)
  /-- The object has ended on the way, and the round ends as it does. -/
  short : numbers.length < n → Answers (.scalar 8 8 .i64) step ([], ending)

namespace Taken

variable {unit : Compiled} {kind : Kind} {object : UInt64} {numbers : List Int64} {ending : LoopExit}
  {n start part : Nat} {valid : Bool} {store : Store} {step last : Step}

/-- A round in which the first source got a number. -/
theorem cons {number : Int64} (hframe : Frame (Only object) store step.store)
    (hok : step.status = Status.ok)
    (hstores : (Entry.yieldLayout kind).Stores step.writes (.i64 number))
    (h : Taken kind object numbers ending n (zipFields
      (alignTo start (Entry.yieldLayout kind).align + (Entry.yieldLayout kind).size) (part + 1)
      (List.replicate n kind)) (valid && decide (step.status = Status.ok)) step.store last) :
    Taken kind object (number :: numbers) ending (n + 1)
      (zipFields start part (kind :: List.replicate n kind)) valid store
      { last with writes := step.writes.map (Write.shift
        (alignTo start (Entry.yieldLayout kind).align)) ++ last.writes } where
  frame := hframe.trans h.frame
  left := h.left
  full hle := by
    obtain ⟨hstatus, hfits⟩ := h.full (Nat.le_of_succ_le_succ hle)
    rw [hok, decide_eq_true rfl, Bool.and_true] at hstatus
    exact ⟨hstatus, hfits.part hstores⟩
  short hlt := (h.short (Nat.lt_of_succ_lt_succ hlt)).of_status_eq rfl

/-- A round that goes on over the end of the object: the sources behind the first are asked all the
same, and the object has ended for them too. -/
theorem past {fields more : List Field} {writes : List Write}
    (hframe : Frame (Only object) store step.store) (hstop : step.status = Status.stop)
    (h : Taken kind object [] .exhausted n more (valid && decide (step.status = Status.ok)) step.store
      last) :
    Taken kind object [] .exhausted (n + 1) fields valid store { last with writes := writes } where
  frame := hframe.trans h.frame
  left := by
    rw [List.drop_nil]
    simpa using h.left
  full := nofun
  short _ := by
    show last.status = Status.stop
    cases n with
    | zero =>
      have hstatus := (h.full (Nat.le_refl 0)).1
      rw [hstop, show decide (Status.stop = Status.ok) = false from rfl, Bool.and_false] at hstatus
      exact hstatus
    | succ n => exact h.short (Nat.succ_pos n)

/-- A round that is cut short by the failure that the object ended with. -/
theorem cut {code : Int32} {fields : List Field} {writes : List Write}
    (hframe : Frame (Only object) store step.store)
    (hleft : Remains step.store kind object [] (.failed code))
    (h : Answers (Entry.yieldLayout kind) step ([], .failed code)) :
    Taken kind object [] (.failed code) (n + 1) fields valid store { step with writes := writes } where
  frame := hframe
  left := hleft
  full := nofun
  short _ := h.of_status_eq rfl

end Taken

/-- **One round over sources that are all one object.**  The induction is on the number of sources
that have not been asked yet. -/
theorem Remains.exists_nextRound {unit : Compiled} (hr : unit.RunsRuntime) {kind : Kind}
    {object state : UInt64} {block : Block} {words : Words} {ending : LoopExit}
    (apart : state ≠ object) (n : Nat) :
    ∀ {store : Store} {numbers : List Int64} {index : Nat} (start part : Nat) (valid : Bool),
      Remains store kind object numbers ending → store.get? state = some (.block block words) →
      (∀ i < n, words.peek (index + i) = object) →
      ∃ step, Exec.nextRound unit.provided (List.replicate n kind) state index
          ((zipFields start part (List.replicate n kind)).map Placed.offset) valid store = .ok step ∧
        Taken kind object numbers ending n (zipFields start part (List.replicate n kind)) valid store
          step := by
  induction n with
  | zero =>
    intro store numbers index start part valid h _ _
    exact ⟨_, Exec.nextRound_nil .., Frame.refl _ _, h, fun _ => ⟨rfl, .nil⟩,
      fun hlt => absurd hlt (Nat.not_lt_zero _)⟩
  | succ n ih =>
    intro store numbers index start part valid h hcell hwords
    obtain ⟨step, hruns, hframe, hanswers, hleft⟩ := h.exists_next hr
    have hpeek : store.peek state index = .ok object := by
      rw [Store.peek_of_get? hcell]
      exact congrArg Except.ok (hwords 0 (Nat.succ_pos n))
    -- the rest of the round, behind an answer that does not cut it short
    obtain ⟨last, hlast, htaken⟩ := @ih step.store numbers.tail (index + 1)
      (alignTo start (Entry.yieldLayout kind).align + (Entry.yieldLayout kind).size) (part + 1)
      (valid && decide (step.status = Status.ok)) hleft (hframe.block apart hcell) fun i hi => by
        rw [Nat.add_assoc, Nat.add_comm 1 i]
        exact hwords (i + 1) (Nat.succ_lt_succ hi)
    have hgoes (hfail : step.status.isFailure = false) :=
      @Exec.nextRound_of_not_failure _ _ _ _ _ _
        (alignTo start (Entry.yieldLayout kind).align) _ valid _ _ _ hpeek hruns hfail hlast
    rw [List.replicate_succ, Exec.zipFields_cons, List.map_cons, ← Exec.zipFields_cons]
    cases numbers with
    | cons number numbers =>
      obtain ⟨hok, hstores⟩ := hanswers
      exact ⟨_, hgoes (by rw [hok]; rfl), htaken.cons hframe hok hstores⟩
    | nil => cases ending with
      | exhausted =>
        have hstop : step.status = Status.stop := hanswers
        exact ⟨_, hgoes (by rw [hstop]; rfl), htaken.past hframe hstop⟩
      | failed code =>
        have hfail : step.status.isFailure = true := by
          rw [hanswers.1]
          exact hanswers.2
        exact ⟨_, Exec.nextRound_of_failure hpeek hruns hfail, .cut hframe hleft hanswers⟩

/-! ### Zips -/

/-- **One step of a zip whose sources are all one object** gives the next part of its numbers, or
tells how they end if there is no part left. -/
theorem Remains.exists_next_zip {unit : Compiled} (hr : unit.RunsRuntime) {kind : Kind}
    {object state : UInt64} {block : Block} {words : Words} {store : Store} {numbers : List Int64}
    {ending : LoopExit} {n : Nat} (pos : 0 < n) (h : Remains store kind object numbers ending)
    (apart : state ≠ object) (cell : store.get? state = some (.block block words))
    (hwords : ∀ i < n, words.peek i = object) :
    ∃ step, Exec.next unit.provided (.zip (List.replicate n kind)) state store = .ok step ∧
      Frame (Only object) store step.store ∧
      Answers (Entry.yieldLayout (.zip (List.replicate n kind))) step
        ((chunks n numbers).map fun part => .tuple (part.map .i64), ending) ∧
      Remains step.store kind object (numbers.drop n) ending := by
  obtain ⟨step, hruns, htaken⟩ := @Remains.exists_nextRound unit hr kind object state block words
    ending apart n store numbers 0 0 0 true h cell fun i hi => by
      rw [Nat.zero_add]
      exact hwords i hi
  refine ⟨step, ?_, htaken.frame, ?_, htaken.left⟩
  · obtain ⟨m, rfl⟩ := Nat.exists_eq_succ_of_ne_zero (Nat.ne_of_gt pos)
    rw [List.replicate_succ] at hruns ⊢
    rw [Exec.next_zip_cons, Exec.slots_zip]
    exact hruns
  · by_cases hle : n ≤ numbers.length
    · obtain ⟨hok, hfits⟩ := htaken.full hle
      rw [chunks_of_le pos hle]
      exact ⟨hok, hfits.stores_zip⟩
    · rw [chunks_of_lt (Nat.not_le.mp hle)]
      exact (htaken.short (Nat.not_le.mp hle)).of_status_eq rfl

/-- **A drain of a zip whose sources are all one object** gives all parts of its numbers, ends as they
do, and leaves none of them. -/
theorem Remains.drainWithin_zip {unit : Compiled} (hr : unit.RunsRuntime) {kind : Kind}
    {object state : UInt64} {block : Block} {words : Words} {store : Store} {numbers : List Int64}
    {ending : LoopExit} {n : Nat} (pos : 0 < n) (h : Remains store kind object numbers ending)
    (apart : state ≠ object) (cell : store.get? state = some (.block block words))
    (hwords : ∀ i < n, words.peek i = object) {handle : Handle}
    (hd : handle.Drives unit (.zip (List.replicate n kind))) (hi : handle.iterator = state)
    {fuel : Nat} (hlt : numbers.length / n < fuel) :
    ∃ last after, handle.drainWithin unit fuel store =
        .ok (((chunks n numbers).map fun part => .tuple (part.map .i64), ending), last, after) ∧
      Remains after kind object [] ending := by
  refine @drainWithin_of_answers unit (.zip (List.replicate n kind)) state
    (fun trace store => ∃ numbers, trace = ((chunks n numbers).map fun part => .tuple (part.map .i64),
      ending) ∧ Remains store kind object numbers ending ∧
        store.get? state = some (.block block words))
    (fun after => Remains after kind object [] ending) ?_ fuel handle _ store hd hi
    ⟨numbers, rfl, h, cell⟩ (by rwa [List.length_map, length_chunks])
  rintro trace store ⟨numbers, rfl, h, cell⟩
  -- a round with a part leaves the other parts, and a round without one leaves nothing
  obtain ⟨step, hruns, hframe, hanswers, hleft⟩ := h.exists_next_zip hr pos apart cell hwords
  refine ⟨step, hruns, hanswers, fun value rest hrest => ?_, fun hnil => ?_⟩
  · by_cases hle : n ≤ numbers.length
    · rw [chunks_of_le pos hle] at hrest
      obtain ⟨-, rfl⟩ := trace_cons_inj
        (show Trace.cons _ ((chunks n (numbers.drop n)).map _, ending) = _ from hrest)
      exact ⟨numbers.drop n, rfl, hleft, hframe.block apart cell⟩
    · rw [chunks_of_lt (Nat.not_le.mp hle)] at hrest
      exact absurd hrest nil_ne_cons
  · have hlt : numbers.length < n := by
      refine Nat.not_le.mp fun hle => ?_
      rw [chunks_of_le pos hle] at hnil
      cases hnil
    rwa [List.drop_eq_nil_of_le (Nat.le_of_lt hlt)] at hleft

/-! ### Making the zip -/

/-- **A zip that is made of references to one iterator** has its address in all words of its state. -/
theorem exists_storeSources_replicate (link : Linkage) {layout : Layout} {record : List UInt8}
    {state object : UInt64} {kind : Kind} {block : Block} (own : kind.getiterSymbol? = none)
    (n : Nat) : ∀ {index : Nat} {store : Store} {words : Words},
      (∀ i < n, Exec.loadArg layout (index + i) record = .ok object) →
      store.get? state = some (.block block words) →
      ∃ after words', Exec.storeSources link layout record state (List.replicate n kind) index store =
          .ok after ∧ Frame (Only state) store after ∧
        after.get? state = some (.block block words') ∧
        (∀ i < index, words'.peek i = words.peek i) ∧ ∀ i < n, words'.peek (index + i) = object := by
  induction n with
  | zero =>
    intro index store words _ hcell
    exact ⟨store, words, rfl, Frame.refl _ _, hcell, fun _ _ => rfl, nofun⟩
  | succ n ih =>
    intro index store words hargs hcell
    -- the object is its own iterator, so obtaining one makes nothing
    have hget : Exec.getiter link kind object store = .ok (object, store) := by
      rw [Exec.getiter, own]
    have hload : Exec.loadArg layout index record = .ok object := hargs 0 (Nat.succ_pos n)
    obtain ⟨after, words', hstore, hframe, hcell', hbefore, hwords⟩ :=
      @ih (index + 1) _ (words.poke index object) (fun i hi => by
        rw [Nat.add_assoc, Nat.add_comm 1 i]
        exact hargs (i + 1) (Nat.succ_lt_succ hi)) (Store.get?_set_self hcell)
    obtain ⟨hword, hkept⟩ := Exec.peek_of_poked hbefore
    refine ⟨after, words', ?_, (Store.frame_set _ (Store.only_self state)).trans hframe, hcell',
      hkept, fun i hi => ?_⟩
    · rw [List.replicate_succ, Exec.storeSources, hload]
      simp only [hget, Store.poke_of_get? hcell]
      exact hstore
    · cases i with
      | zero => exact hword
      | succ i =>
        rw [Nat.add_comm i 1, ← Nat.add_assoc]
        exact hwords i (Nat.lt_of_succ_lt_succ hi)

/-- A zip of references to one object takes nothing from it when it is made. -/
theorem Remains.construct_zip {unit : Compiled} (hr : unit.RunsRuntime) {kind : Kind}
    {object state : UInt64} {store mid : Store} {numbers : List Int64} {ending : LoopExit} {n : Nat}
    {args : List Scalar} {record : List UInt8} (hwf : store.WellFormed)
    (h : Remains store kind object numbers ending)
    (hargs : ∀ i < n, Exec.loadArg (Layout.zipArgs targetPointerBytes args) i record = .ok object)
    (hc : Exec.construct unit.provided (.zip (List.replicate n kind)) args record store =
      .ok (state, mid)) :
    ∃ block words, mid.get? state = some (.block block words) ∧ state ≠ object ∧
      (∀ i < n, words.peek i = object) ∧ Remains mid kind object numbers ending := by
  obtain ⟨empty, hl, hs⟩ := Exec.exists_of_construct_zip hc
  rw [Compiled.provided_alloc hr] at hl
  obtain ⟨block, hcell, halloc, habsent, -⟩ := block_of_linkedAlloc hwf hl
  obtain ⟨last, words, hstore, hframe, hcell', -, hwords⟩ :=
    @exists_storeSources_replicate unit.provided (Layout.zipArgs targetPointerBytes args) record
      state object kind block h.getiterSymbol?_eq n 0 empty [] (fun i hi => by
        rw [Nat.zero_add]
        exact hargs i hi) hcell
  cases hstore.symm.trans hs
  -- the state is new, and the object was there before
  have hne : state ≠ object := by
    rintro rfl
    have hlive := h.isSome_get?
    rw [habsent] at hlive
    cases hlive
  refine ⟨block, words, hcell', hne, fun i hi => ?_,
    (h.frame halloc id).frame hframe fun heq => hne (show object = state from heq).symm⟩
  have hword := hwords i hi
  rwa [Nat.zero_add] at hword

end PullIter.Tree
