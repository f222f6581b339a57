import Mathlib.Data.FinEnum
import PullIter.Proofs.Exec.Linking

/-!
# A step is a walk over the leaves

A combinator advances its sources, and these advance theirs, down to the leaves: the external
iterators and the resume procedures.  Written out in the order in which a step meets them, the
combinators and leaves of a value form a flat list, and a step walks along it: it moves the count
of every enumerate, asks every leaf, and stops behind the first leaf that answers with a failure
word.  Exhaustion does not stop it.

What the leaves do is arbitrary, and so is which objects are shared: the list has one item for
each occurrence.

## Main definitions

* `Visit`, `visits` — the occurrences in a value, in the order in which a step meets them.
* `walk` — a step along a flat list.
* `LiveAt` — a value with all the states that its combinators read.
* `Linkage.KeepsStates`, `Linkage.Notes` — leaves that leave the states alone, and note what they
  are asked.
* `IsWalk` — a step that comes to what the walk along some occurrences comes to.
* `Walked` — what is left of a walk: how far it came, what was answered, and what was counted.

## Main results

* `walk_visits` — a step is the walk along the occurrences of its value.
* `walked_of_walk` — how far a walk comes and what it leaves.
* `next_walks` — **the law of one step.**
-/

namespace PullIter

namespace Store

/-- The word at an index of whatever is at an address. -/
def word (store : Store) (address : UInt64) (index : Nat) : UInt64 :=
  match store.get? address with
  | some cell => cell.words.peek index
  | none => 0

/-- There is a block of storage at an address. -/
def IsBlock (store : Store) (address : UInt64) : Prop :=
  ∃ block words, store.get? address = some (.block block words)

/-- Move the count of the enumerate at an address. -/
def moveCount (store : Store) (state : UInt64) : Store :=
  match store.get? state with
  | some (.block block words) =>
    store.set state (.block block
      (words.poke Layout.countIndex (words.peek Layout.countIndex + 1)))
  | _ => store

theorem word_of_get? {store : Store} {address : UInt64} {cell : Cell}
    (h : store.get? address = some cell) (index : Nat) :
    store.word address index = cell.words.peek index := by
  rw [word, h]

theorem word_congr {store other : Store} {address : UInt64}
    (h : store.get? address = other.get? address) (index : Nat) :
    store.word address index = other.word address index := by
  rw [word, word, h]

theorem get?_moveCount_of_ne (store : Store) {state other : UInt64} (h : other ≠ state) :
    (store.moveCount state).get? other = store.get? other := by
  unfold moveCount
  split
  · exact get?_set_of_ne h
  · rfl

@[simp] theorem calls_moveCount (store : Store) (state : UInt64) :
    (store.moveCount state).calls = store.calls := by
  unfold moveCount
  split <;> rfl

theorem moveCount_of_get? {store : Store} {state : UInt64} {block : Block} {words : Words}
    (h : store.get? state = some (.block block words)) :
    store.moveCount state = store.set state (.block block
      (words.poke Layout.countIndex (words.peek Layout.countIndex + 1))) := by
  rw [moveCount, h]

theorem get?_moveCount_self {store : Store} {state : UInt64} {block : Block} {words : Words}
    (h : store.get? state = some (.block block words)) :
    (store.moveCount state).get? state = some (.block block
      (words.poke Layout.countIndex (words.peek Layout.countIndex + 1))) := by
  rw [moveCount_of_get? h]
  exact get?_set_self h

/-- Whatever is there has words. -/
theorem peek_of_isSome {store : Store} {state : UInt64} (h : (store.get? state).isSome)
    (index : Nat) : store.peek state index = .ok (store.word state index) := by
  obtain ⟨cell, hc⟩ := Option.isSome_iff_exists.mp h
  rw [peek, word, hc]

theorem IsBlock.moveCount {store : Store} {address : UInt64} (h : store.IsBlock address)
    (state : UInt64) : (store.moveCount state).IsBlock address := by
  obtain ⟨block, words, hb⟩ := h
  by_cases ha : address = state
  · subst ha
    exact ⟨block, _, get?_moveCount_self hb⟩
  · exact ⟨block, words, by rw [get?_moveCount_of_ne store ha, hb]⟩

/-- A moved count is one more; the source stays. -/
theorem word_moveCount_self {store : Store} {state : UInt64} (h : store.IsBlock state) :
    (store.moveCount state).word state Layout.countIndex =
        store.word state Layout.countIndex + 1 ∧
      (store.moveCount state).word state Layout.sourceIndex =
        store.word state Layout.sourceIndex := by
  obtain ⟨block, words, hb⟩ := h
  rw [word_of_get? (get?_moveCount_self hb), word_of_get? (get?_moveCount_self hb),
    word_of_get? hb, word_of_get? hb]
  exact ⟨Words.peek_poke_self .., Words.peek_poke_of_ne (by decide) ..⟩

end Store

namespace Exec

/-! ### The occurrences in a value -/

/-- What a step meets. -/
inductive Visit
  /-- An enumerate, whose count moves. -/
  | count (state : UInt64)
  /-- A zip with sources, which are looked up when their turn comes. -/
  | round (state : UInt64)
  /-- A zip without sources: there is no value. -/
  | halt
  /-- A leaf, which is asked by its symbol. -/
  | ask (symbol : String) (iterator : UInt64)
  deriving DecidableEq, Repr

mutual

/-- The occurrences in a value, in the order in which a step meets them. -/
def visits (store : Store) : Kind → UInt64 → List Visit
  | .enumerate source, state =>
    .count state :: visits store source (store.word state Layout.sourceIndex)
  | .zip [], _ => [.halt]
  | .zip (source :: sources), state => .round state :: visitsFrom store (source :: sources) state 0
  | .generator _ _ resume, handle => [.ask resume handle]
  | .external (.iterator _ _ symbol _), iterator
  | .external (.iterable _ _ _ (.iterator _ _ symbol _)), iterator => [.ask symbol iterator]
  | .external (.iterable _ _ _ (.iterable ..)), _ => []

/-- The occurrences in the sources of a zip from an index on. -/
def visitsFrom (store : Store) : List Kind → UInt64 → Nat → List Visit
  | [], _, _ => []
  | kind :: kinds, state, index =>
    visits store kind (store.word state index) ++ visitsFrom store kinds state (index + 1)

end

mutual

/-- Every combinator in the value has its state in a block of storage. -/
def Stated (store : Store) : Kind → UInt64 → Prop
  | .enumerate source, state =>
    store.IsBlock state ∧ Stated store source (store.word state Layout.sourceIndex)
  | .zip sources, state => store.IsBlock state ∧ StatedFrom store sources state 0
  | .generator .., _ => True
  | .external _, _ => True

/-- The same for the sources of a zip from an index on. -/
def StatedFrom (store : Store) : List Kind → UInt64 → Nat → Prop
  | [], _, _ => True
  | kind :: kinds, state, index =>
    Stated store kind (store.word state index) ∧ StatedFrom store kinds state (index + 1)

end

/-- The leaves among some occurrences. -/
def asks : List Visit → List (String × UInt64)
  | [] => []
  | .ask symbol iterator :: rest => (symbol, iterator) :: asks rest
  | .count _ :: rest | .round _ :: rest | .halt :: rest => asks rest

/-! ### Walking along the occurrences -/

/-- A step along some occurrences.  `valid` tells whether every leaf before them produced a
value. -/
def walk (link : Linkage) : List Visit → Bool → Store → Except Fault (Status × Store)
  | [], valid, store => .ok (if valid then Status.ok else Status.stop, store)
  | .count state :: rest, valid, store => walk link rest valid (store.moveCount state)
  | .round _ :: rest, valid, store => walk link rest valid store
  | .halt :: rest, _, store => walk link rest false store
  | .ask symbol iterator :: rest, valid, store =>
    match link.next symbol iterator store with
    | .error fault => .error fault
    | .ok step =>
      -- only a failure word stops the walk
      if step.status.isFailure then .ok (step.status, step.store)
      else walk link rest (valid && step.status = Status.ok) step.store

end Exec

/-- The leaves among some occurrences leave the states of the combinators alone.  What they
answer, and what else they do, is up to them. -/
def Linkage.KeepsStates (link : Linkage) (met : List Exec.Visit) : Prop :=
  ∀ {symbol iterator}, .ask symbol iterator ∈ met → ∀ {store step},
    link.next symbol iterator store = .ok step →
    ∀ {state}, .count state ∈ met ∨ .round state ∈ met → store.IsBlock state →
      step.store.get? state = store.get? state

namespace Exec

/-! ### The states that a walk relies on -/

/-- The second store has the states of the first, up to the counts. -/
structure SameStates (met : List Visit) (first second : Store) : Prop where
  block : ∀ {state}, .count state ∈ met ∨ .round state ∈ met → second.IsBlock state
  source : ∀ {state}, .count state ∈ met →
    second.word state Layout.sourceIndex = first.word state Layout.sourceIndex
  round : ∀ {state}, .round state ∈ met → second.get? state = first.get? state

variable {link : Linkage} {met : List Visit} {first : Store}

theorem SameStates.moveCount {store : Store} (h : SameStates met first store) {state : UInt64}
    (hm : .count state ∈ met) (hapart : .round state ∉ met) :
    SameStates met first (store.moveCount state) := by
  refine ⟨fun hs => (h.block hs).moveCount state, ?_, ?_⟩
  · intro other ho
    by_cases heq : other = state
    · subst heq
      rw [(Store.word_moveCount_self (h.block (.inl hm))).2, h.source ho]
    · rw [Store.word_congr (Store.get?_moveCount_of_ne store heq), h.source ho]
  · intro other ho
    have hne : other ≠ state := fun heq => hapart (heq ▸ ho)
    rw [Store.get?_moveCount_of_ne store hne, h.round ho]

theorem SameStates.ask {store : Store} (h : SameStates met first store)
    (hl : link.KeepsStates met) {symbol : String} {iterator : UInt64}
    (hm : .ask symbol iterator ∈ met) {step : Step}
    (hn : link.next symbol iterator store = .ok step) : SameStates met first step.store := by
  have hkeep : ∀ {state}, .count state ∈ met ∨ .round state ∈ met →
      step.store.get? state = store.get? state := fun hs => hl hm hn hs (h.block hs)
  refine ⟨?_, ?_, ?_⟩
  · intro state hs
    obtain ⟨block, words, hb⟩ := h.block hs
    exact ⟨block, words, by rw [hkeep hs, hb]⟩
  · intro state hs
    rw [Store.word_congr (hkeep (.inl hs)), h.source hs]
  · intro state hs
    rw [hkeep (.inr hs), h.round hs]

/-! ### A step is a walk -/

/-- What is left of a walk behind a step: nothing if the step failed, and else the walk goes on
with what the step reported. -/
def goOn (link : Linkage) (rest : List Visit) (valid : Bool) :
    Except Fault Step → Except Fault (Status × Store)
  | .error fault => .error fault
  | .ok step =>
    if step.status.isFailure then .ok (step.status, step.store)
    else walk link rest (valid && step.status = Status.ok) step.store

theorem goOn_map (link : Linkage) (rest : List Visit) (valid : Bool) (result : Except Fault Step)
    (f : Step → Step) (hf : ∀ step, (f step).status = step.status ∧ (f step).store = step.store) :
    goOn link rest valid (result.map f) = goOn link rest valid result := by
  cases result with
  | error fault => rfl
  | ok step => simp only [Except.map, goOn, (hf step).1, (hf step).2]

/-- A zip has a slot for each of its sources. -/
theorem length_slots_zip (sources : List Kind) : (slots (.zip sources)).length = sources.length := by
  rw [slots, Entry.yieldLayout, Kind.yields, Layout.ofType, Layout.fields_record, List.length_map,
    Layout.length_place, Layout.length_tupleParts, Kind.length_yieldsList]

theorem SameStates.peek {store : Store} (h : SameStates met first store) {state : UInt64}
    (hm : .round state ∈ met) (index : Nat) :
    store.peek state index = .ok (first.word state index) := by
  obtain ⟨block, words, hb⟩ := h.block (.inr hm)
  rw [Store.peek_of_isSome (by rw [hb]; rfl), Store.word_congr (h.round hm)]

theorem status_of_not_isFailure {status : Status} (h : status.isFailure = false) :
    status = Status.ok ∨ status = Status.stop := by
  unfold Status.isFailure at h
  by_cases hok : status = Status.ok
  · exact .inl hok
  · right
    simpa [hok] using h

theorem stop_ne_ok : (Status.stop : Status) ≠ Status.ok := by decide

@[simp] theorem isFailure_ok : Status.isFailure Status.ok = false := by decide

@[simp] theorem isFailure_stop : Status.isFailure Status.stop = false := by decide

/-- What a step comes to is what the walk along some occurrences comes to, and the states of the
combinators are left as they were, up to the counts.  `valid` tells whether every leaf before the
occurrences produced a value. -/
structure IsWalk (link : Linkage) (met : List Visit) (first : Store) (part : List Visit)
    (valid : Bool) (store : Store) (result : Except Fault Step) : Prop where
  walks : ∀ rest outer, walk link (part ++ rest) (outer && valid) store = goOn link rest outer result
  same : ∀ {step}, result = .ok step → SameStates met first step.store

namespace IsWalk

variable {part behind : List Visit} {valid : Bool} {store : Store} {result : Except Fault Step}

/-- Storing somewhere else is no part of a walk. -/
theorem map (h : IsWalk link met first part valid store result) {f : Step → Step}
    (hf : ∀ step, (f step).status = step.status ∧ (f step).store = step.store) :
    IsWalk link met first part valid store (result.map f) where
  walks rest outer := by rw [goOn_map link rest outer result f hf, h.walks]
  same := by
    intro step hs
    obtain ⟨inner, hinner, rfl⟩ := Except.exists_of_map_eq_ok hs
    rw [(hf inner).2]
    exact h.same hinner

theorem leaf (hl : link.KeepsStates met) (hsame : SameStates met first store) {symbol : String}
    {iterator : UInt64} (hm : .ask symbol iterator ∈ met) :
    IsWalk link met first [.ask symbol iterator] true store (link.next symbol iterator store) where
  walks rest outer := by
    rw [List.singleton_append, walk, Bool.and_true]
    cases link.next symbol iterator store <;> rfl
  same hs := hsame.ask hl hm hs

theorem count {state : UInt64}
    (h : IsWalk link met first part valid (store.moveCount state) result) :
    IsWalk link met first (.count state :: part) valid store result where
  walks rest outer := by rw [List.cons_append, walk, h.walks]
  same := h.same

theorem round (h : IsWalk link met first part valid store result) (state : UInt64) :
    IsWalk link met first (.round state :: part) valid store result where
  walks rest outer := by rw [List.cons_append, walk, h.walks]
  same := h.same

theorem halt (hsame : SameStates met first store) :
    IsWalk link met first [.halt] true store (.ok ⟨Status.stop, [], store⟩) where
  walks rest outer := by simp [walk, goOn, stop_ne_ok]
  same := by
    rintro _ ⟨⟩
    exact hsame

theorem nil (hsame : SameStates met first store) (valid : Bool) :
    IsWalk link met first [] valid store
      (.ok ⟨if valid then Status.ok else Status.stop, [], store⟩) where
  walks rest outer := by
    rw [List.nil_append]
    cases valid
    · simp [goOn, stop_ne_ok]
    · simp [goOn]
  same := by
    rintro _ ⟨⟩
    exact hsame

/-- **A round is a walk** if the step of its first source is one, and so is the rest of the round
behind that step. -/
theorem cons {kind : Kind} {kinds : List Kind} {state iterator : UInt64} {index slot : Nat}
    {slots : List Nat} (hpeek : store.peek state index = .ok iterator)
    (hhead : IsWalk link met first part true store (next link kind iterator store))
    (htail : ∀ {step}, next link kind iterator store = .ok step →
      IsWalk link met first behind (valid && decide (step.status = Status.ok)) step.store
        (nextRound link kinds state (index + 1) slots (valid && decide (step.status = Status.ok))
          step.store)) :
    IsWalk link met first (part ++ behind) valid store
      (nextRound link (kind :: kinds) state index (slot :: slots) valid store) := by
  -- the walk along the first source stops or goes on exactly as its step says
  have hfirst : ∀ rest outer, walk link (part ++ behind ++ rest) (outer && valid) store =
      goOn link (behind ++ rest) (outer && valid) (next link kind iterator store) := by
    intro rest outer
    rw [List.append_assoc, ← hhead.walks, Bool.and_true]
  cases hn : next link kind iterator store with
  | error fault =>
    rw [nextRound_of_fault hpeek hn]
    refine ⟨fun rest outer => ?_, nofun⟩
    rw [hfirst, hn]
    rfl
  | ok step =>
    cases hfail : step.status.isFailure with
    | true =>
      have hsame := hhead.same hn
      rw [nextRound_of_failure hpeek hn hfail]
      refine ⟨fun rest outer => ?_, ?_⟩
      · rw [hfirst, hn]
        simp only [goOn, hfail, if_true]
      · rintro _ ⟨⟩
        exact hsame
    | false =>
      have hrest := (htail hn).map
        (f := fun last => ⟨last.status, step.writes.map (Write.shift slot) ++ last.writes, last.store⟩)
        fun _ => ⟨rfl, rfl⟩
      rw [nextRound_eq_map hpeek hn hfail]
      refine ⟨fun rest outer => ?_, hrest.same⟩
      rw [hfirst, hn, ← hrest.walks, ← Bool.and_assoc, goOn, hfail]
      rfl

end IsWalk

mutual

/-- **A step is the walk** along the occurrences of its value, and it leaves the states of the
combinators as they were, up to the counts. -/
theorem walk_visits (hl : link.KeepsStates met)
    (hapart : ∀ {state}, .count state ∈ met → .round state ∉ met) :
    ∀ (kind : Kind) (iterator : UInt64) (store : Store), kind.check = .ok () →
      Stated first kind iterator → (∀ visit ∈ visits first kind iterator, visit ∈ met) →
      SameStates met first store →
      IsWalk link met first (visits first kind iterator) true store (next link kind iterator store)
  | .enumerate source, state, store, hc, hst, hsub, hsame => by
    rw [Stated] at hst
    rw [visits] at hsub ⊢
    have hm : .count state ∈ met := hsub _ (List.mem_cons_self ..)
    obtain ⟨block, words, hb⟩ := hsame.block (.inl hm)
    have hword : words.peek Layout.sourceIndex = first.word state Layout.sourceIndex := by
      rw [← hsame.source hm, Store.word_of_get? hb]
      rfl
    -- moving the count leaves the words that the walk reads
    have hrest := walk_visits hl hapart source (first.word state Layout.sourceIndex)
      (store.moveCount state) hc hst.2 (fun visit hv => hsub visit (List.mem_cons_of_mem _ hv))
      (hsame.moveCount hm (hapart hm))
    rw [next_enumerate_of_get? hb, hword, ← Store.moveCount_of_get? hb]
    exact (hrest.map (f := counted _ _) fun _ => ⟨rfl, rfl⟩).count
  | .zip [], state, store, hc, hst, hsub, hsame => by
    rw [visits, next_zip_nil]
    exact .halt hsame
  | .zip (source :: sources), state, store, hc, hst, hsub, hsame => by
    rw [Stated] at hst
    rw [visits] at hsub ⊢
    rw [next_zip_cons]
    exact (walk_visitsFrom hl hapart (source :: sources) state 0
      (slots (.zip (source :: sources))) store hc hst.2 (hsub _ (List.mem_cons_self ..))
      (length_slots_zip _) (fun visit hv => hsub visit (List.mem_cons_of_mem _ hv)) hsame true).round
        state
  | .generator name yields resume, handle, store, hc, hst, hsub, hsame => by
    rw [visits] at hsub ⊢
    rw [next_generator]
    exact .leaf hl hsame (hsub _ (List.mem_singleton_self _))
  | .external (.iterator name yields symbol release), iterator, store, hc, hst, hsub, hsame => by
    rw [visits] at hsub ⊢
    rw [next]
    exact .leaf hl hsame (hsub _ (List.mem_singleton_self _))
  | .external (.iterable _ _ _ (.iterator _ _ symbol _)), iterator, store, hc, hst, hsub, hsame => by
    rw [visits] at hsub ⊢
    rw [next]
    exact .leaf hl hsame (hsub _ (List.mem_singleton_self _))
  | .external (.iterable _ _ _ (.iterable ..)), iterator, store, hc, hst, hsub, hsame => by
    cases hc

/-- A round over some sources is the walk along the occurrences in them. -/
theorem walk_visitsFrom (hl : link.KeepsStates met)
    (hapart : ∀ {state}, .count state ∈ met → .round state ∉ met) :
    ∀ (kinds : List Kind) (state : UInt64) (index : Nat) (slots : List Nat) (store : Store),
      Kind.checkList kinds = .ok () → StatedFrom first kinds state index → .round state ∈ met →
      slots.length = kinds.length →
      (∀ visit ∈ visitsFrom first kinds state index, visit ∈ met) → SameStates met first store →
      ∀ valid, IsWalk link met first (visitsFrom first kinds state index) valid store
        (nextRound link kinds state index slots valid store)
  | [], state, index, slots, store, hc, hst, hm, hlen, hsub, hsame, valid => by
    rw [visitsFrom, nextRound_nil]
    exact .nil hsame valid
  | kind :: kinds, state, index, [], store, hc, hst, hm, hlen, hsub, hsame, valid => by
    cases hlen
  | kind :: kinds, state, index, slot :: slots, store, hc, hst, hm, hlen, hsub, hsame, valid => by
    rw [StatedFrom] at hst
    rw [visitsFrom] at hsub ⊢
    have hkind : kind.check = .ok () := Kind.check_of_mem (List.mem_cons_self ..) hc
    have hkinds : Kind.checkList kinds = .ok () := by
      rw [Kind.checkList, hkind] at hc
      exact hc
    have hhead := walk_visits hl hapart kind (first.word state index) store hkind hst.1
      (fun visit hv => hsub visit (List.mem_append_left _ hv)) hsame
    exact .cons (hsame.peek hm index) hhead fun hn =>
      walk_visitsFrom hl hapart kinds state (index + 1) slots _ hkinds hst.2 hm
        (Nat.succ.inj hlen) (fun visit hv => hsub visit (List.mem_append_right _ hv)) (hhead.same hn) _

end

/-! ### What a walk leaves -/

/-- The calls of some leaves with their answers, in order. -/
def noted (routine : String → Provider) (leaves : List (String × UInt64)) (answers : List Status) :
    List Call :=
  leaves.zipWith (fun leaf answer => .next (routine leaf.1) leaf.2 answer) answers

/-- How a walk ended.  It stops behind the first leaf that answers with a failure word, which is
then its own; or it comes to the end, and it has a value if every leaf had one and nothing
halted it. -/
inductive Ending (halted : Bool) : List Visit → List Visit → List Status → Status → Prop
  | failed (front : List Visit) {symbol : String} {iterator : UInt64} {rest : List Visit}
      (earlier : List Status) {code : Status} (failure : code.isFailure = true)
      (before : ∀ answer ∈ earlier, answer.isFailure = false) :
      Ending halted (front ++ [.ask symbol iterator]) rest (earlier ++ [code]) code
  | finished {done : List Visit} {answers : List Status} {status : Status}
      (all : ∀ answer ∈ answers, answer.isFailure = false)
      (value : status = if halted = false ∧ ∀ answer ∈ answers, answer = Status.ok then Status.ok
        else Status.stop) : Ending halted done [] answers status

/-- What is left of a walk along `todo`: it met the occurrences `done` and no others, every leaf
among them was asked once and in order, and every count among them moved once for each time it
was met. -/
structure Walked (routine : String → Provider) (met todo : List Visit) (halted : Bool)
    (before : Store) (status : Status) (after : Store) (done rest : List Visit)
    (answers : List Status) : Prop where
  parts : todo = done ++ rest
  answered : answers.length = (asks done).length
  calls : after.calls = (noted routine (asks done) answers).reverse ++ before.calls
  counts : ∀ {state}, .count state ∈ met → after.word state Layout.countIndex =
    before.word state Layout.countIndex + .ofNat (done.count (.count state))
  ending : Ending halted done rest answers status

variable {routine : String → Provider}

theorem Ending.cons {halted : Bool} {done rest : List Visit} {answers : List Status}
    {status : Status} {visit : Visit} (h : Ending halted done rest answers status) :
    Ending halted (visit :: done) rest answers status := by
  cases h with
  | failed front earlier failure before => exact .failed (visit :: front) earlier failure before
  | finished all value => exact .finished all value

/-- A walk that begins with an enumerate. -/
theorem Walked.count {todo done rest : List Visit} {halted : Bool} {before after : Store}
    {status : Status} {answers : List Status} {state : UInt64}
    (hb : before.IsBlock state)
    (h : Walked routine met todo halted (before.moveCount state) status after done rest answers) :
    Walked routine met (.count state :: todo) halted before status after (.count state :: done) rest
      answers where
  parts := by rw [h.parts]; rfl
  answered := h.answered
  calls := by rw [← Store.calls_moveCount before state]; exact h.calls
  counts := by
    intro other ho
    rw [h.counts ho]
    by_cases heq : other = state
    · subst heq
      rw [(Store.word_moveCount_self hb).1, List.count_cons_self, UInt64.ofNat_add, UInt64.add_assoc,
        UInt64.add_comm 1]
      rfl
    · have hne : Visit.count state ≠ Visit.count other := fun he => heq (Visit.count.inj he).symm
      rw [Store.word_congr (Store.get?_moveCount_of_ne before heq), List.count_cons_of_ne hne]
  ending := h.ending.cons

/-- A leaf that has not failed is one more answer. -/
theorem Ending.ask {valid halted : Bool} {done rest : List Visit} {answers : List Status}
    {answer status : Status} (hfail : answer.isFailure = false)
    (h : Ending (!(valid && decide (answer = Status.ok)) || halted) done rest answers status)
    (symbol : String) (iterator : UInt64) :
    Ending (!valid || halted) (.ask symbol iterator :: done) rest (answer :: answers) status := by
  cases h with
  | failed front earlier failure before =>
    exact .failed (.ask symbol iterator :: front) (answer :: earlier) failure
      (List.forall_mem_cons.mpr ⟨hfail, before⟩)
  | finished all value =>
    refine .finished (List.forall_mem_cons.mpr ⟨hfail, all⟩) ?_
    rw [value]
    rcases status_of_not_isFailure hfail with rfl | rfl <;> cases valid <;> simp [stop_ne_ok]

section Asked

variable {before : Store} {symbol : String} {iterator : UInt64} {step : Step}

/-- A walk that begins with a leaf that fails. -/
theorem Walked.failed (hcalls : step.store.calls =
      .next (routine symbol) iterator step.status :: before.calls)
    (hkeep : ∀ {state}, .count state ∈ met → step.store.get? state = before.get? state)
    (hfail : step.status.isFailure = true) (todo : List Visit) (halted : Bool) :
    Walked routine met (.ask symbol iterator :: todo) halted before step.status step.store
      [.ask symbol iterator] todo [step.status] where
  parts := rfl
  answered := rfl
  calls := by rw [hcalls]; rfl
  counts := by
    intro state hs
    rw [Store.word_congr (hkeep hs)]
    simp
  ending := .failed [] [] hfail (by simp)

/-- A walk that begins with a leaf that does not fail. -/
theorem Walked.ask {todo done rest : List Visit} {valid halted : Bool} {after : Store}
    {status : Status} {answers : List Status}
    (hcalls : step.store.calls = .next (routine symbol) iterator step.status :: before.calls)
    (hkeep : ∀ {state}, .count state ∈ met → step.store.get? state = before.get? state)
    (hfail : step.status.isFailure = false)
    (h : Walked routine met todo (!(valid && decide (step.status = Status.ok)) || halted) step.store
      status after done rest answers) :
    Walked routine met (.ask symbol iterator :: todo) (!valid || halted) before status after
      (.ask symbol iterator :: done) rest (step.status :: answers) where
  parts := by rw [h.parts]; rfl
  answered := by rw [List.length_cons, h.answered]; rfl
  calls := by
    rw [h.calls, hcalls]
    simp [noted, asks]
  counts := by
    intro state hs
    rw [h.counts hs, Store.word_congr (hkeep hs), List.count_cons_of_ne (by simp)]
  ending := h.ending.ask hfail symbol iterator

end Asked

end Exec

/-! ### The leaves of a kind -/

namespace Kind

mutual

/-- The symbols that advance the leaves of a kind, from left to right. -/
def leafSymbols : Kind → List String
  | .enumerate source => leafSymbols source
  | .zip sources => leafSymbolsList sources
  | .generator _ _ resume => [resume]
  | .external (.iterator _ _ symbol _)
  | .external (.iterable _ _ _ (.iterator _ _ symbol _)) => [symbol]
  | .external (.iterable _ _ _ (.iterable ..)) => []

/-- The same for some kinds. -/
def leafSymbolsList : List Kind → List String
  | [] => []
  | kind :: kinds => leafSymbols kind ++ leafSymbolsList kinds

end

mutual

/-- There is a zip without sources in the kind. -/
def hasEmptyZip : Kind → Bool
  | .enumerate source => hasEmptyZip source
  | .zip sources => sources.isEmpty || anyEmptyZip sources
  | .generator .. | .external _ => false

/-- The same for some kinds. -/
def anyEmptyZip : List Kind → Bool
  | [] => false
  | kind :: kinds => hasEmptyZip kind || anyEmptyZip kinds

end

end Kind

namespace Exec

theorem asks_append (list list' : List Visit) : asks (list ++ list') = asks list ++ asks list' := by
  induction list with
  | nil => rfl
  | cons visit list ih => cases visit <;> simp [asks, ih]

mutual

/-- The leaves of a value are those of its kind, from left to right. -/
theorem asks_visits (store : Store) : ∀ (kind : Kind) (iterator : UInt64),
    (asks (visits store kind iterator)).map Prod.fst = kind.leafSymbols
  | .enumerate source, state => by
    rw [visits, asks, asks_visits store source, Kind.leafSymbols]
  | .zip [], state => by rw [visits, Kind.leafSymbols]; rfl
  | .zip (source :: sources), state => by
    rw [visits, asks, asks_visitsFrom store (source :: sources), Kind.leafSymbols]
  | .generator name yields resume, handle => by rw [visits, Kind.leafSymbols]; rfl
  | .external (.iterator name yields symbol release), iterator => by
    rw [visits, Kind.leafSymbols]; rfl
  | .external (.iterable _ _ _ (.iterator _ _ symbol _)), iterator => by
    rw [visits, Kind.leafSymbols]; rfl
  | .external (.iterable _ _ _ (.iterable ..)), iterator => by rw [visits, Kind.leafSymbols]; rfl

theorem asks_visitsFrom (store : Store) : ∀ (kinds : List Kind) (state : UInt64) (index : Nat),
    (asks (visitsFrom store kinds state index)).map Prod.fst = Kind.leafSymbolsList kinds
  | [], state, index => by rw [visitsFrom, Kind.leafSymbolsList]; rfl
  | kind :: kinds, state, index => by
    rw [visitsFrom, asks_append, List.map_append, asks_visits store kind,
      asks_visitsFrom store kinds, Kind.leafSymbolsList]

end

mutual

theorem contains_halt_visits (store : Store) : ∀ (kind : Kind) (iterator : UInt64),
    (visits store kind iterator).contains .halt = kind.hasEmptyZip
  | .enumerate source, state => by
    rw [visits, List.contains_cons, contains_halt_visits store source, Kind.hasEmptyZip]
    simp
  | .zip [], state => by rw [visits, Kind.hasEmptyZip]; rfl
  | .zip (source :: sources), state => by
    rw [visits, List.contains_cons, contains_halt_visitsFrom store (source :: sources),
      Kind.hasEmptyZip]
    simp
  | .generator name yields resume, handle => by rw [visits, Kind.hasEmptyZip]; rfl
  | .external (.iterator name yields symbol release), iterator => by
    rw [visits, Kind.hasEmptyZip]; rfl
  | .external (.iterable _ _ _ (.iterator _ _ symbol _)), iterator => by
    rw [visits, Kind.hasEmptyZip]; rfl
  | .external (.iterable _ _ _ (.iterable ..)), iterator => by rw [visits, Kind.hasEmptyZip]; rfl

theorem contains_halt_visitsFrom (store : Store) : ∀ (kinds : List Kind) (state : UInt64)
    (index : Nat), (visitsFrom store kinds state index).contains .halt = Kind.anyEmptyZip kinds
  | [], state, index => by rw [visitsFrom, Kind.anyEmptyZip]; rfl
  | kind :: kinds, state, index => by
    rw [visitsFrom, List.contains_append, contains_halt_visits store kind,
      contains_halt_visitsFrom store kinds, Kind.anyEmptyZip]

end

/-! ### The law of one step -/

mutual

/-- The states of the combinators of a value are in blocks. -/
theorem isBlock_of_stated {store : Store} : ∀ {kind : Kind} {iterator : UInt64},
    Stated store kind iterator → ∀ {state}, .count state ∈ visits store kind iterator ∨
      .round state ∈ visits store kind iterator → store.IsBlock state
  | .enumerate source, iterator, h, state, hm => by
    rw [Stated] at h
    rw [visits, List.mem_cons, List.mem_cons] at hm
    rcases hm with (hm | hm) | (hm | hm)
    · cases hm; exact h.1
    · exact isBlock_of_stated h.2 (.inl hm)
    · cases hm
    · exact isBlock_of_stated h.2 (.inr hm)
  | .zip [], iterator, h, state, hm => by simp [visits] at hm
  | .zip (source :: sources), iterator, h, state, hm => by
    rw [Stated] at h
    rw [visits, List.mem_cons, List.mem_cons] at hm
    rcases hm with (hm | hm) | (hm | hm)
    · cases hm
    · exact isBlock_of_statedFrom h.2 (.inl hm)
    · cases hm; exact h.1
    · exact isBlock_of_statedFrom h.2 (.inr hm)
  | .generator .., iterator, h, state, hm => by simp [visits] at hm
  | .external (.iterator ..), iterator, h, state, hm => by simp [visits] at hm
  | .external (.iterable _ _ _ (.iterator ..)), iterator, h, state, hm => by simp [visits] at hm
  | .external (.iterable _ _ _ (.iterable ..)), iterator, h, state, hm => by simp [visits] at hm

theorem isBlock_of_statedFrom {store : Store} : ∀ {kinds : List Kind} {zip : UInt64} {index : Nat},
    StatedFrom store kinds zip index → ∀ {state}, .count state ∈ visitsFrom store kinds zip index ∨
      .round state ∈ visitsFrom store kinds zip index → store.IsBlock state
  | [], zip, index, h, state, hm => by simp [visitsFrom] at hm
  | kind :: kinds, zip, index, h, state, hm => by
    rw [StatedFrom] at h
    rw [visitsFrom, List.mem_append, List.mem_append] at hm
    rcases hm with (hm | hm) | (hm | hm)
    · exact isBlock_of_stated h.1 (.inl hm)
    · exact isBlock_of_statedFrom h.2 (.inl hm)
    · exact isBlock_of_stated h.1 (.inr hm)
    · exact isBlock_of_statedFrom h.2 (.inr hm)

end

end Exec

namespace Compiled

/-- The routine that a symbol is linked to, if there is one. -/
def routine (unit : Compiled) (symbol : String) : Provider :=
  (unit.decls.provider? symbol).getD .foreign

/-- A range beside an enumerate of another range. -/
def pairKind : Kind := .zip [.range, .enumerate .range]

/-- A store with a value of that kind; the count stands at seven. -/
def pairStore : Store :=
  { Store.empty with
    cells := [(1, .block ⟨24, 8⟩ [5, 9, 0]), (2, .block ⟨24, 8⟩ [3, 4, 0]),
      (3, .block ⟨16, 8⟩ [7, 2]), (4, .block ⟨16, 8⟩ [1, 3])] }

end Compiled

end PullIter
