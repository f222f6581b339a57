import PullIter.Proofs.Exec.Flattening
import PullIter.Proofs.Layout.Parts

/-!
# A value whose leaves are stored whole is stored whole

A step with a value has asked all leaves, and each has produced a value.  If each has stored all
the scalars of what it yields, then the step has stored all the scalars of the tuple that is put
together of them.

## Main definitions

* `LeafCall`, `leafCalls` — the calls of leaves that a step makes.
* `LeafCall.Covers` — a leaf that produces a value stores all of it.

## Main results

* `next_enumerate_eq_ok`, `nextRound_eq_ok` — what a step asked, in the words of the store.
* `covers_next` — a step with a value stores all of it, if its leaves do.
-/

namespace PullIter.Exec

/-- A leaf that is asked for a step in a store. -/
structure LeafCall where
  kind : Kind
  iterator : UInt64
  store : Store

mutual

/-- The calls of leaves that a step makes, in order. -/
def leafCalls (link : Linkage) : Kind → UInt64 → Store → List LeafCall
  | .enumerate source, state, store =>
    leafCalls link source (store.word state Layout.sourceIndex) (store.moveCount state)
  | .zip sources, state, store => leafCallsFrom link sources state 0 store
  | .generator name yields resume, handle, store =>
    [⟨.generator name yields resume, handle, store⟩]
  | .external ext, iterator, store => [⟨.external ext, iterator, store⟩]

/-- The calls of leaves that a round makes from an index on. -/
def leafCallsFrom (link : Linkage) : List Kind → UInt64 → Nat → Store → List LeafCall
  | [], _, _, _ => []
  | kind :: kinds, state, index, store =>
    leafCalls link kind (store.word state index) store ++
      match next link kind (store.word state index) store with
      | .error _ => []
      | .ok step =>
        if step.status.isFailure then [] else leafCallsFrom link kinds state (index + 1) step.store

end

/-- A leaf that produces a value stores all the scalars of it. -/
def LeafCall.Covers (link : Linkage) (call : LeafCall) : Prop :=
  ∀ step, next link call.kind call.iterator call.store = .ok step → step.status = Status.ok →
    (Entry.yieldLayout call.kind).Covers step.writes

variable {link : Linkage}

/-- The fields of what a zip yields, from a source on: each has the layout of what the source
yields. -/
def zipFields (start index : Nat) (kinds : List Kind) : List Field :=
  Layout.place start (Layout.tupleParts targetPointerBytes index (Kind.yieldsList kinds))

theorem zipFields_cons (start index : Nat) (kind : Kind) (kinds : List Kind) :
    zipFields start index (kind :: kinds) =
      ⟨toString index, alignTo start (Entry.yieldLayout kind).align, Entry.yieldLayout kind⟩ ::
        zipFields (alignTo start (Entry.yieldLayout kind).align + (Entry.yieldLayout kind).size)
          (index + 1) kinds := by
  rw [zipFields, Kind.yieldsList, Layout.tupleParts, Layout.place_cons]
  rfl

theorem slots_zip (sources : List Kind) :
    slots (.zip sources) = (zipFields 0 0 sources).map Placed.offset := by
  rw [slots, Entry.yieldLayout, Kind.yields, Layout.ofType, Layout.fields_record]
  rfl

theorem yieldLayout_zip (sources : List Kind) : ∃ size align,
    Entry.yieldLayout (.zip sources) = .struct size align (zipFields 0 0 sources) := by
  rw [Entry.yieldLayout, Kind.yields, Layout.ofType, Layout.record]
  exact ⟨_, _, rfl⟩

/-- What an enumerate yields is the count and, at its slot, what the source yields. -/
theorem yieldLayout_enumerate (source : Kind) : ∃ size align,
    Entry.yieldLayout (.enumerate source) = .struct size align
      [⟨"0", 0, .scalar 8 8 .i64⟩, ⟨"1", payloadSlot source, Entry.yieldLayout source⟩] := by
  have hslot : payloadSlot source = alignTo 8 (Entry.yieldLayout source).align := rfl
  rw [hslot, Entry.yieldLayout, Kind.yields, Layout.ofType, Layout.record]
  exact ⟨_, _, rfl⟩

/-! ### What a step did -/

/-- An enumerate moves its count and asks its source. -/
theorem next_enumerate_eq_ok {source : Kind} {state : UInt64} {store : Store} {step : Step}
    (h : next link (.enumerate source) state store = .ok step) :
    ∃ block words inner, store.get? state = some (.block block words) ∧
      next link source (store.word state Layout.sourceIndex) (store.moveCount state) = .ok inner ∧
      step = counted (words.peek Layout.countIndex).toInt64 (payloadSlot source) inner := by
  obtain ⟨block, words, inner, hcell, hn, rfl⟩ := exists_of_next_enumerate h
  refine ⟨block, words, inner, hcell, ?_, rfl⟩
  rw [Store.word_of_get? hcell, Store.moveCount_of_get? hcell]
  exact hn

/-- A round ends with the first source that fails, or else asks the others. -/
theorem nextRound_cons_eq_ok {kind : Kind} {kinds : List Kind} {state : UInt64} {index slot : Nat}
    {slots : List Nat} {valid : Bool} {store : Store} {step : Step}
    (h : nextRound link (kind :: kinds) state index (slot :: slots) valid store = .ok step) :
    (store.get? state).isSome ∧
    ∃ inner, next link kind (store.word state index) store = .ok inner ∧
      (inner.status.isFailure = true ∧
          step = { inner with writes := inner.writes.map (Write.shift slot) } ∨
        inner.status.isFailure = false ∧ ∃ rest,
          nextRound link kinds state (index + 1) slots (valid && inner.status = Status.ok)
            inner.store = .ok rest ∧
          step = { rest with writes := inner.writes.map (Write.shift slot) ++ rest.writes }) := by
  obtain ⟨iterator, inner, hp, hn, hcases⟩ := exists_of_nextRound_cons h
  have hsome : (store.get? state).isSome := by
    unfold Store.peek at hp
    split at hp
    · next cell hc => rw [hc]; rfl
    · cases hp
  rw [Store.peek_of_isSome hsome] at hp
  cases hp
  exact ⟨hsome, inner, hn, hcases⟩

/-- A round goes on with a source only behind sources that did not fail. -/
theorem nextRound_eq_ok {kind : Kind} {kinds : List Kind} {state : UInt64} {index slot : Nat}
    {slots : List Nat} {valid : Bool} {store : Store} {step : Step}
    (h : nextRound link (kind :: kinds) state index (slot :: slots) valid store = .ok step)
    (hok : step.status = Status.ok) :
    ∃ inner rest, next link kind (store.word state index) store = .ok inner ∧
      inner.status.isFailure = false ∧
      nextRound link kinds state (index + 1) slots (valid && inner.status = Status.ok) inner.store =
        .ok rest ∧
      step = { rest with writes := inner.writes.map (Write.shift slot) ++ rest.writes } := by
  obtain ⟨-, inner, hn, ⟨hfail, rfl⟩ | ⟨hgood, rest, hr, rfl⟩⟩ := nextRound_cons_eq_ok h
  · rw [show inner.status = Status.ok from hok] at hfail
    cases hfail
  · exact ⟨inner, rest, hn, hgood, hr, rfl⟩

/-- A round has a value only if every source before it had one. -/
theorem valid_of_nextRound {kinds : List Kind} {state : UInt64} :
    ∀ {index : Nat} {slots : List Nat} {valid : Bool} {store : Store} {step : Step},
      nextRound link kinds state index slots valid store = .ok step → step.status = Status.ok →
      valid = true := by
  have hend : ∀ {valid : Bool} {store : Store} {step : Step},
      (.ok ⟨if valid then Status.ok else Status.stop, [], store⟩ : Except Fault Step) = .ok step →
      step.status = Status.ok → valid = true := by
    intro valid store step hs hok
    cases hs
    cases valid with
    | true => rfl
    | false => exact absurd hok stop_ne_ok
  induction kinds with
  | nil =>
    intro index slots valid store step hs hok
    rw [nextRound_nil] at hs
    exact hend hs hok
  | cons kind kinds ih =>
    intro index slots valid store step hs hok
    cases slots with
    | nil =>
      rw [nextRound_noSlots] at hs
      exact hend hs hok
    | cons slot slots =>
      obtain ⟨inner, rest, -, -, hr, rfl⟩ := nextRound_eq_ok hs hok
      have hv := ih hr hok
      rw [Bool.and_eq_true] at hv
      exact hv.1

mutual

/-- **A step with a value stores all of it**, if its leaves do. -/
theorem covers_next : ∀ {kind : Kind} {iterator : UInt64} {store : Store},
    (∀ call ∈ leafCalls link kind iterator store, call.Covers link) → ∀ {step : Step},
    next link kind iterator store = .ok step → step.status = Status.ok →
    (Entry.yieldLayout kind).Covers step.writes
  | .enumerate source, state, store, hcover, step, hs, hok => by
    obtain ⟨block, words, inner, -, hn, rfl⟩ := next_enumerate_eq_ok hs
    rw [leafCalls] at hcover
    have hcov : (Entry.yieldLayout source).Covers inner.writes := covers_next hcover hn hok
    obtain ⟨size, align, hlayout⟩ := yieldLayout_enumerate source
    rw [hlayout]
    apply Layout.covers_fields
    intro field hf
    have hwrites : (counted (words.peek Layout.countIndex).toInt64 (payloadSlot source)
        inner).writes = inner.writes.map (Write.shift (payloadSlot source)) ++
          [.word (words.peek Layout.countIndex).toInt64] := by
      have hok' : inner.status = Status.ok := hok
      simp only [counted, hok', if_true]
    rw [hwrites]
    rcases List.mem_cons.mp hf with rfl | hf
    · -- the count is written last, behind what the source writes
      refine ⟨[.word (words.peek Layout.countIndex).toInt64], Layout.covers_word _, ?_⟩
      intro w hw
      refine List.mem_append_right _ ?_
      simpa [Write.shift, Write.word] using hw
    · rw [List.mem_singleton.mp hf]
      exact ⟨inner.writes, hcov, fun w hw => List.mem_append_left _ hw⟩
  | .zip [], state, store, hcover, step, hs, hok => by
    rw [next_zip_nil] at hs
    cases hs
    exact absurd hok stop_ne_ok
  | .zip (source :: sources), state, store, hcover, step, hs, hok => by
    rw [next_zip_cons, slots_zip] at hs
    rw [leafCalls] at hcover
    obtain ⟨size, align, hlayout⟩ := yieldLayout_zip (source :: sources)
    rw [hlayout]
    exact Layout.covers_fields (covers_nextRound hcover hs hok)
  | .generator name yields resume, handle, store, hcover, step, hs, hok =>
    hcover _ (by rw [leafCalls]; exact List.mem_singleton_self _) step hs hok
  | .external ext, iterator, store, hcover, step, hs, hok =>
    hcover _ (by rw [leafCalls]; exact List.mem_singleton_self _) step hs hok

/-- A round with a value stores all of each field. -/
theorem covers_nextRound : ∀ {kinds : List Kind} {state : UInt64} {index start part : Nat}
    {valid : Bool} {store : Store},
    (∀ call ∈ leafCallsFrom link kinds state index store, call.Covers link) → ∀ {step : Step},
    nextRound link kinds state index ((zipFields start part kinds).map Placed.offset) valid store =
      .ok step → step.status = Status.ok →
    ∀ field ∈ zipFields start part kinds, ∃ ws, field.layout.Covers ws ∧
      ∀ w ∈ ws.map (Write.shift field.offset), w ∈ step.writes
  | [], state, index, start, part, valid, store, hcover, step, hs, hok, field, hf => by
    simp [zipFields, Kind.yieldsList, Layout.tupleParts] at hf
  | kind :: kinds, state, index, start, part, valid, store, hcover, step, hs, hok, field, hf => by
    rw [zipFields_cons, List.map_cons] at hs
    obtain ⟨inner, rest, hn, hfail, hr, rfl⟩ := nextRound_eq_ok hs hok
    rw [leafCallsFrom, hn] at hcover
    simp only [hfail] at hcover
    -- an exhausted source leaves its mark on the whole round
    have hinner : inner.status = Status.ok := by
      rcases status_of_not_isFailure hfail with hst | hst
      · exact hst
      · have hv := valid_of_nextRound hr hok
        simp [hst, stop_ne_ok] at hv
    rw [zipFields_cons] at hf
    rcases List.mem_cons.mp hf with rfl | hf
    · refine ⟨inner.writes, covers_next (fun call hc => hcover call ?_) hn hinner, ?_⟩
      · exact List.mem_append_left _ hc
      · exact fun w hw => List.mem_append_left _ hw
    · obtain ⟨ws, hc, hsub⟩ := covers_nextRound
        (fun call hc => hcover call (List.mem_append_right _ (by simpa using hc))) hr hok field hf
      exact ⟨ws, hc, fun w hw => List.mem_append_right _ (hsub w hw)⟩

end

end PullIter.Exec
