import PullIter.Proofs.Host.Loop
import PullIter.Proofs.Host.Observed

/-!
# Many handles on one iterator

A value that is its own iterator can be advanced by any number of handles and by compiled loops, in
any order.  None of them keeps state of its own, so a run that is split among them observes what one
handle would have observed: a loop that is ended by a panic has used up the values that it handed
over and no more, and whoever comes next goes on with the value behind them.

## Main definitions

* `Move` — what the host does with the value and the handles on it.
* `Sharing` — the handles, what was observed so far, and the store.
* `Steady` — what a finished unit makes of a value that is its own iterator.

## Main results

* `shares_play` — one move goes on where the moves before it ended.
* `shares_playAll` — all the moves of a session.
* `session_observes_one_handle` — **a session observes what one handle would observe.**
-/

namespace PullIter

/-- What the host does with a value and the handles on it. -/
inductive Move (kind : Kind)
  /-- Get one more handle. -/
  | iter
  /-- Advance a handle by one step. -/
  | step (index : Nat)
  /-- Advance a handle until there is no value any more. -/
  | drain (index : Nat)
  /-- Drop a handle. -/
  | drop (index : Nat)
  /-- Run a loop with a sink that may panic, over a slot that holds anything. -/
  | loop (trap : Option (Nat × String)) (slot : List UInt8) (fits : slot.length = Exec.slotSize kind)

/-- A value between two moves: the handles in the order in which they were made, without those that
were dropped, the outcomes observed so far, and the store. -/
structure Sharing where
  handles : List (Option Handle)
  seen : List Outcome
  store : Store

namespace Sharing

/-- A value on which there are no handles yet. -/
def start (store : Store) : Sharing := ⟨[], [], store⟩

/-- The fault of a move that names a handle which is not there. -/
def noHandle : Fault := .malformed "no such handle"

/-- The handle with an index. -/
def handle (sharing : Sharing) (index : Nat) : Except Fault Handle :=
  match sharing.handles[index]? with
  | some (some handle) => .ok handle
  | _ => .error noHandle

end Sharing

namespace Move

/-- Make one move. -/
def play {kind : Kind} (unit : Compiled) (value : UInt64) (move : Move kind) (sharing : Sharing) :
    Except Fault Sharing :=
  match move with
  | iter => (unit.hostIter kind value sharing.store).map fun
    | (.ok handle, store) => { sharing with handles := sharing.handles ++ [some handle], store }
    | (.error _, store) => { sharing with store }
  | step index =>
    match sharing.handle index with
    | .error fault => .error fault
    | .ok handle => (handle.step unit sharing.store).map fun (outcome, handle, store) =>
      ⟨sharing.handles.set index (some handle), sharing.seen ++ [outcome], store⟩
  | drain index =>
    match sharing.handle index with
    | .error fault => .error fault
    | .ok handle => (handle.drain unit sharing.store).map fun ((values, ending), handle, store) =>
      ⟨sharing.handles.set index (some handle),
        sharing.seen ++ (values.map Outcome.valid ++ [ending.outcome]), store⟩
  | drop index =>
    match sharing.handle index with
    | .error fault => .error fault
    | .ok handle => (handle.drop unit sharing.store).map fun store =>
      { sharing with handles := sharing.handles.set index none, store }
  | loop trap slot _ => (unit.hostForEach kind value trap slot sharing.store).map fun
    | (.ok (values, ending), store) =>
      -- a value that was handed to the sink counts, also the one that it panicked on
      { sharing with seen := sharing.seen ++ (values.map Outcome.valid ++ ending.outcomes), store }
    | (.error _, store) => { sharing with store }

/-- Make some moves in order. -/
def playAll {kind : Kind} (unit : Compiled) (value : UInt64) :
    List (Move kind) → Sharing → Except Fault Sharing
  | [], sharing => .ok sharing
  | move :: moves, sharing =>
    match move.play unit value sharing with
    | .error fault => .error fault
    | .ok sharing => playAll unit value moves sharing

end Move

/-! ### Values that are their own iterators -/

theorem Kind.getiterSymbol?_of_isIterator {kind : Kind} (h : kind.isIterator = true) :
    kind.getiterSymbol? = none := by
  cases kind with
  | enumerate => rfl
  | zip => rfl
  | generator => rfl
  | external ext => cases ext with
    | iterator => rfl
    | iterable => cases h

theorem Kind.releasesMade_of_isIterator {kind : Kind} (h : kind.isIterator = true) :
    kind.releasesMade = false := by
  simp [Kind.releasesMade, Kind.ownership, h]

/-- What a unit makes of a value that is its own iterator: a handle is an alias of the value, and a
loop is a number of rounds over it. -/
structure Steady (unit : Compiled) (kind : Kind) (value : UInt64) (fresh : Handle) : Prop where
  drives : fresh.Drives unit kind
  iterator : fresh.iterator = value
  /-- Obtaining a handle changes nothing. -/
  made : ∀ store, unit.hostIter kind value store = .ok (.ok fresh, store)
  /-- Dropping a handle changes nothing. -/
  dropped : ∀ {handle : Handle}, handle.Drives unit kind → ∀ store,
    handle.drop unit store = .ok store
  /-- A loop that is not available changes nothing, and any other is a number of rounds. -/
  looped : ∀ trap slot store,
    (∃ e, unit.hostForEach kind value trap slot store = .ok (.error e, store)) ∨
    unit.hostForEach kind value trap slot store =
      (Exec.rounds unit.provided kind (Recorder.sink (Entry.yieldLayout kind)) value
        (store.rounds + 1) slot (Recorder.start trap) store).map fun (status, recorder, store) =>
          (.ok (recorder.values, recorder.ending status), store)

theorem Compiled.exists_steady {unit : Compiled} {options : Options}
    {externals : List (String × Provider)} {requests : List Request}
    (h : unit.Finished options externals requests) (hygienic : unit.Hygienic) {kind : Kind}
    (hkind : kind.isIterator = true) (havailable : unit.isAvailable ⟨.getiter, kind⟩ = true)
    (value : UInt64) : ∃ fresh, Steady unit kind value fresh := by
  obtain ⟨code, hc⟩ := exists_code havailable
  have hl := callsLinked_of_hygienic h hygienic hc
  obtain ⟨handle, hdrives, hiter⟩ := hostIter_eq h hl hc
  obtain ⟨hi, hd⟩ := hdrives value
  -- neither is a value that is its own iterator converted, nor is it released
  have hget : ∀ store, Exec.getiter unit.provided kind value store = .ok (value, store) := by
    intro store
    rw [Exec.getiter, Kind.getiterSymbol?_of_isIterator hkind]
  have hrelease : ∀ iterator store,
      Exec.releaseMade unit.provided kind iterator store = .ok store :=
    Exec.releaseMade_of_not_releasesMade (Kind.releasesMade_of_isIterator hkind) unit.provided
  refine ⟨handle value, hd, hi, fun store => ?_, fun hd store => ?_, fun trap slot store => ?_⟩
  · rw [hiter, hget]
    rfl
  · rw [hd.drop, hrelease]
  · cases hloop : unit.entryCode ⟨.forEach, kind⟩ with
    | error e => exact .inl ⟨e, by rw [hostForEach, hloop]⟩
    | ok loopCode =>
      right
      rw [hostForEach_eq h hl hloop, Exec.forEach, hget]
      simp only
      cases Exec.rounds unit.provided kind (Recorder.sink (Entry.yieldLayout kind)) value
          (store.rounds + 1) slot (Recorder.start trap) store with
      | error fault => rfl
      | ok result =>
        obtain ⟨status, recorder, last⟩ := result
        simp only [hrelease]
        rfl

theorem Recorder.ending_eq_panicked {recorder : Recorder} {status : Status} {text : String} :
    recorder.ending status = .panicked text ↔ recorder.panicked = some text := by
  unfold Recorder.ending
  cases recorder.panicked with
  | none => simp
  | some said => simp

/-- What a loop on a value does: it observes a stretch of steps, and it panics if its sink was
handed the value with the number of its trap, which is then the last. -/
def Loops (unit : Compiled) (kind : Kind) (value : UInt64) (trap : Option (Nat × String))
    (store : Store) : Hosted (List Value × LoopEnd) → Prop
  | .ok (.ok (values, ending), last) =>
    Exec.Shows unit.provided kind value store (values.map Outcome.valid ++ ending.outcomes) last ∧
      ∀ text, ending = .panicked text ↔ values ≠ [] ∧ trap = some (values.length, text)
  | .ok (.error _, last) => last = store
  | .error fault => Exec.Breaks unit.provided kind value store fault

theorem Steady.loops {unit : Compiled} {kind : Kind} {value : UInt64} {fresh : Handle}
    (steady : Steady unit kind value fresh) {store : Store}
    (hcover : Exec.CoversAhead unit.provided kind value store) (trap : Option (Nat × String))
    {slot : List UInt8} (fits : slot.length = Exec.slotSize kind) :
    Loops unit kind value trap store (unit.hostForEach kind value trap slot store) := by
  rcases steady.looped trap slot store with ⟨e, hloop⟩ | hloop
  · rw [hloop]
    exact rfl
  · have hslot : (Entry.yieldLayout kind).size ≤ slot.length := by
      rw [fits, Exec.slotSize]
      exact Nat.le_max_right ..
    have hserves := Exec.rounds_observes (store.rounds + 1) hslot hcover
      (show (Recorder.start trap).panicked = none from rfl)
    rw [hloop]
    cases hs : Exec.rounds unit.provided kind (Recorder.sink (Entry.yieldLayout kind)) value
        (store.rounds + 1) slot (Recorder.start trap) store with
    | error fault => rw [hs] at hserves; exact Exec.Observes.breaks hserves
    | ok result =>
      obtain ⟨status, recorder, last⟩ := result
      rw [hs] at hserves
      obtain ⟨values, hfollows⟩ := hserves
      have hseen : recorder.seen = values.reverse := by
        rw [hfollows.seen, Recorder.start, List.append_nil]
      have hvalues : recorder.values = values := by
        rw [Recorder.values, hseen, List.reverse_reverse]
      simp only [Except.map, hvalues]
      refine ⟨hfollows.shows, fun text => ?_⟩
      rw [Recorder.ending_eq_panicked, hfollows.panicked, hseen, List.length_reverse]
      rfl

/-! ### Sessions -/

/-- All handles drive the value, and what was observed is a stretch of its steps. -/
structure Sharing.Shares (unit : Compiled) (kind : Kind) (value : UInt64) (first : Store)
    (sharing : Sharing) : Prop where
  drives : ∀ handle, some handle ∈ sharing.handles →
    handle.Drives unit kind ∧ handle.iterator = value
  shows : Exec.Shows unit.provided kind value first sharing.seen sharing.store

/-- What a session ends with.  It faults only if a handle is not there or if a step of the iterator
leads to the fault. -/
def Sharing.Ends (unit : Compiled) (kind : Kind) (value : UInt64) (first : Store) :
    Except Fault Sharing → Prop
  | .ok after => after.Shares unit kind value first
  | .error fault => fault = Sharing.noHandle ∨ Exec.Breaks unit.provided kind value first fault

section Sessions

variable {unit : Compiled} {kind : Kind} {value : UInt64} {fresh : Handle} {first : Store}
  {sharing : Sharing}

theorem Sharing.shares_start (unit : Compiled) (kind : Kind) (value : UInt64) (store : Store) :
    (Sharing.start store).Shares unit kind value store :=
  ⟨fun _ h => absurd h List.not_mem_nil, .done store⟩

/-- A handle that is there drives the value. -/
theorem Sharing.Shares.handle (h : sharing.Shares unit kind value first) (index : Nat) :
    (∃ handle, sharing.handle index = .ok handle ∧ handle.Drives unit kind ∧
      handle.iterator = value) ∨ sharing.handle index = .error noHandle := by
  unfold Sharing.handle
  split
  · next handle hget =>
    have hm : some handle ∈ sharing.handles := List.mem_of_getElem? hget
    exact .inl ⟨handle, rfl, h.drives handle hm⟩
  · exact .inr rfl

/-- Replacing a handle by one that drives the value. -/
theorem Sharing.Shares.drives_set (h : sharing.Shares unit kind value first) (index : Nat)
    {made : Option Handle}
    (hmade : ∀ handle, made = some handle → handle.Drives unit kind ∧ handle.iterator = value) :
    ∀ handle, some handle ∈ sharing.handles.set index made →
      handle.Drives unit kind ∧ handle.iterator = value := by
  intro handle hm
  rcases List.mem_or_eq_of_mem_set hm with hm | rfl
  · exact h.drives handle hm
  · exact hmade handle rfl

/-- **One move** goes on where the moves before it ended. -/
theorem shares_play (steady : Steady unit kind value fresh)
    (hcover : Exec.CoversAhead unit.provided kind value first)
    (h : sharing.Shares unit kind value first) (move : Move kind) :
    Sharing.Ends unit kind value first (move.play unit value sharing) := by
  have hahead : Exec.CoversAhead unit.provided kind value sharing.store := hcover.after h.shows
  cases move with
  | iter =>
    rw [Move.play, steady.made]
    -- nothing is observed, and the store stays
    refine ⟨fun handle hm => ?_, h.shows⟩
    rcases List.mem_append.mp hm with hm | hm
    · exact h.drives handle hm
    · cases List.mem_singleton.mp hm
      exact ⟨steady.drives, steady.iterator⟩
  | step index =>
    rw [Move.play]
    rcases h.handle index with ⟨handle, hget, hd, rfl⟩ | hget
    · rw [hget]
      simp only
      cases hs : handle.step unit sharing.store with
      | error fault => exact .inr (.step h.shows ((hd.step_eq_error hahead.now).mp hs))
      | ok result =>
        obtain ⟨outcome, after, last⟩ := result
        have hshown := (hd.step_eq_ok hahead.now).mp ⟨after, hs⟩
        refine ⟨h.drives_set index ?_, h.shows.append (.single hshown)⟩
        intro _ heq
        cases heq
        exact hd.of_step hs
    · rw [hget]
      exact .inl rfl
  | drain index =>
    rw [Move.play]
    rcases h.handle index with ⟨handle, hget, hd, rfl⟩ | hget
    · have hobserves := Handle.drainWithin_observes (sharing.store.rounds + 1) hd hahead
      rw [hget]
      simp only [Handle.drain]
      cases hs : handle.drainWithin unit (sharing.store.rounds + 1) sharing.store with
      | error fault =>
        rw [hs] at hobserves
        exact .inr (Exec.Breaks.after h.shows hobserves.breaks)
      | ok result =>
        obtain ⟨⟨values, ending⟩, after, last⟩ := result
        rw [hs] at hobserves
        refine ⟨h.drives_set index ?_, h.shows.append hobserves⟩
        intro _ heq
        cases heq
        exact hd.of_drainWithin _ hs
    · rw [hget]
      exact .inl rfl
  | drop index =>
    rw [Move.play]
    rcases h.handle index with ⟨handle, hget, hd, -⟩ | hget
    · rw [hget]
      simp only [steady.dropped hd]
      exact ⟨h.drives_set index (fun _ heq => by cases heq), h.shows⟩
    · rw [hget]
      exact .inl rfl
  | loop trap slot fits =>
    rw [Move.play]
    have hloops := steady.loops hahead trap fits
    cases hs : unit.hostForEach kind value trap slot sharing.store with
    | error fault =>
      rw [hs] at hloops
      exact .inr (Exec.Breaks.after h.shows hloops)
    | ok result =>
      obtain ⟨answer, last⟩ := result
      rw [hs] at hloops
      cases answer with
      | error e =>
        obtain rfl : last = sharing.store := hloops
        exact h
      | ok answer => exact ⟨h.drives, h.shows.append hloops.1⟩

/-- **All the moves of a session** observe one stretch of steps. -/
theorem shares_playAll (steady : Steady unit kind value fresh)
    (hcover : Exec.CoversAhead unit.provided kind value first) (moves : List (Move kind)) :
    ∀ {sharing : Sharing}, sharing.Shares unit kind value first →
      Sharing.Ends unit kind value first (Move.playAll unit value moves sharing) := by
  induction moves with
  | nil => exact fun h => h
  | cons move moves ih =>
    intro sharing h
    have hmove := shares_play steady hcover h move
    rw [Move.playAll]
    cases hs : move.play unit value sharing with
    | error fault => rw [hs] at hmove; exact hmove
    | ok after => rw [hs] at hmove; exact ih hmove

end Sessions

namespace Compiled

/-- **A session observes what one handle would observe.**  A value that is its own iterator, and
whose leaves store whole values, is advanced by handles, drains and loops in any order.  Obtaining
or dropping a handle changes nothing.  The outcomes of a session in the order of time, and the store
after it, are those of as many steps of one handle.  A loop after the session panics if and only if
its sink was handed the value with the number of its trap; then it has made as many steps as it has
handed values over, and the panic is raised again.  A session faults only where one handle does,
after more values than the store holds, or for want of a handle. -/
theorem session_observes_one_handle {unit : Compiled} {options : Options}
    {externals : List (String × Provider)} {requests : List Request}
    (h : unit.Finished options externals requests) (hygienic : unit.Hygienic) {kind : Kind}
    (hkind : kind.isIterator = true) (havailable : unit.isAvailable ⟨.getiter, kind⟩ = true)
    {value : UInt64} {store : Store}
    (hcover : Exec.CoversAhead unit.provided kind value store) :
    ∃ fresh : Handle, (∀ at_, unit.hostIter kind value at_ = .ok (.ok fresh, at_)) ∧
      (∀ (moves : List (Move kind)) (after : Sharing),
        Move.playAll unit value moves (Sharing.start store) = .ok after →
        (∀ handle, some handle ∈ after.handles → ∀ at_, handle.drop unit at_ = .ok at_) ∧
        (∃ last, fresh.steps unit after.seen.length store = .ok (after.seen, last, after.store)) ∧
        ∀ trap slot values ending end_, slot.length = Exec.slotSize kind →
          unit.hostForEach kind value trap slot after.store = .ok (.ok (values, ending), end_) →
          ∀ text, (ending = .panicked text ↔ values ≠ [] ∧ trap = some (values.length, text)) ∧
            (ending = .panicked text →
              ∃ last, fresh.steps unit (after.seen.length + values.length) store =
                .ok (after.seen ++ values.map Outcome.valid, last, end_))) ∧
      ∀ (moves : List (Move kind)) (fault : Fault),
        Move.playAll unit value moves (Sharing.start store) = .error fault →
        fault = Sharing.noHandle ∨ (∃ n, fresh.steps unit n store = .error fault) ∨
          fault = .endlessLoop ∧ ∃ before more at_ middle last end_,
            fresh.steps unit before.length store = .ok (before, middle, at_) ∧
            middle.steps unit more.length at_ = .ok (more, last, end_) ∧
            at_.rounds < more.length ∧ ∀ outcome ∈ more, outcome.isValid = true := by
  obtain ⟨fresh, steady⟩ := exists_steady h hygienic hkind havailable value
  refine ⟨fresh, steady.made, fun moves after hplay => ?_, fun moves fault hplay => ?_⟩
  · have hends := shares_playAll steady hcover moves (Sharing.shares_start unit kind value store)
    rw [hplay] at hends
    obtain ⟨hdrives, hshows⟩ : after.Shares unit kind value store := hends
    refine ⟨fun handle hm at_ => steady.dropped (hdrives handle hm).1 at_, ?_, ?_⟩
    · obtain ⟨last, hsteps, -⟩ :=
        Handle.steps_of_shows hshows steady.drives steady.iterator hcover
      exact ⟨last, hsteps⟩
    · intro trap slot values ending end_ fits hloop text
      have hloops := steady.loops (hcover.after hshows) trap fits
      rw [hloop] at hloops
      obtain ⟨hstretch, hpanic⟩ := hloops
      refine ⟨hpanic text, ?_⟩
      rintro rfl
      -- the end of a loop that panicked shows nothing beside the values
      have hall := hshows.append hstretch
      rw [LoopEnd.outcomes, List.append_nil] at hall
      obtain ⟨last, hsteps, -⟩ := Handle.steps_of_shows hall steady.drives steady.iterator hcover
      rw [List.length_append, List.length_map] at hsteps
      exact ⟨last, hsteps⟩
  · have hends := shares_playAll steady hcover moves (Sharing.shares_start unit kind value store)
    rw [hplay] at hends
    rcases hends with rfl | hbreaks
    · exact .inl rfl
    · right
      cases hbreaks with
      | step before fails =>
        exact .inl ⟨_, Handle.steps_of_fails before fails steady.drives steady.iterator hcover⟩
      | endless before ahead long valid =>
        right
        obtain ⟨middle, hsteps, hd, hi⟩ :=
          Handle.steps_of_shows before steady.drives steady.iterator hcover
        obtain ⟨last, hmore, -⟩ := Handle.steps_of_shows ahead hd hi (hcover.after before)
        exact ⟨rfl, _, _, _, _, _, _, hsteps, hmore, long, valid⟩

/-- The leaves of a value store whole values in every step ahead, if they are built-in objects. -/
theorem coversAhead_of_builtIn {unit : Compiled} (h : unit.RunsRuntime) {kind : Kind}
    (hb : ∀ leaf ∈ kind.leafKinds, Exec.BuiltIn leaf) (iterator : UInt64) (store : Store) :
    Exec.CoversAhead unit.provided kind iterator store :=
  fun _ at_ _ => Exec.covers_leafCalls_of_builtIn h hb iterator at_

/-- A store with a pair of ranges of four numbers each; the count stands at seven. -/
def fourPairs : Store :=
  { Store.empty with
    cells := [(1, .block ⟨24, 8⟩ [5, 9, 0]), (2, .block ⟨24, 8⟩ [3, 7, 0]),
      (3, .block ⟨16, 8⟩ [7, 2]), (4, .block ⟨16, 8⟩ [1, 3])] }

/-- One handle makes a step, a loop panics on the next value, and another handle drains the rest. -/
def pairSession : List (Move pairKind) :=
  [.iter, .iter, .step 0,
    .loop (some (1, "enough")) (List.replicate (Exec.slotSize pairKind) 255) (List.length_replicate ..),
    .drop 0, .drain 1]

/-- What the pairs of the ranges are, with the count beside the second. -/
def fourOutcomes : List Outcome :=
  [.valid (.pair (.i64 5) (.pair (.i64 7) (.i64 3))), .valid (.pair (.i64 6) (.pair (.i64 8) (.i64 4))),
    .valid (.pair (.i64 7) (.pair (.i64 9) (.i64 5))),
    .valid (.pair (.i64 8) (.pair (.i64 10) (.i64 6))), .exhausted]

theorem exists_ok_of_seen {result : Except Fault Sharing} {outcomes : List Outcome}
    {Q : Sharing → Prop} (h : result.toOption.map Sharing.seen = some outcomes)
    (hq : ∀ after, result = .ok after → Q after) :
    ∃ after, result = .ok after ∧ after.seen = outcomes ∧ Q after := by
  cases result with
  | error fault => cases h
  | ok after => exact ⟨after, rfl, Option.some.inj h, hq after rfl⟩

/-- The session on a pair. -/
theorem session_observes_one_handle_pair : ∃ unit : Compiled,
    unit.Finished .debug [] [.iterator pairKind, .loop pairKind] ∧ unit.Hygienic ∧
      pairKind.isIterator = true ∧ unit.isAvailable ⟨.getiter, pairKind⟩ = true ∧
      Exec.CoversAhead unit.provided pairKind 4 fourPairs ∧
      ∃ after, Move.playAll unit 4 pairSession (Sharing.start fourPairs) = .ok after ∧
        after.seen = fourOutcomes ∧ ∃ fresh last : Handle,
          unit.hostIter pairKind 4 fourPairs = .ok (.ok fresh, fourPairs) ∧
          fresh.steps unit after.seen.length fourPairs = .ok (after.seen, last, after.store) := by
  have hcover : ∀ {unit : Compiled}, unit.Finished .debug [] [.iterator pairKind, .loop pairKind] →
      Exec.CoversAhead unit.provided pairKind 4 fourPairs := fun h =>
    coversAhead_of_builtIn (runsRuntime_of_finished h (by intro external hm; simp at hm))
      Exec.builtIn_of_mem_leafKinds_pair _ _
  have hobserves : ∀ {unit : Compiled},
      unit.Finished .debug [] [.iterator pairKind, .loop pairKind] → unit.Hygienic →
      unit.isAvailable ⟨.getiter, pairKind⟩ = true → ∀ {after : Sharing},
      Move.playAll unit 4 pairSession (Sharing.start fourPairs) = .ok after →
      ∃ fresh last : Handle, unit.hostIter pairKind 4 fourPairs = .ok (.ok fresh, fourPairs) ∧
        fresh.steps unit after.seen.length fourPairs = .ok (after.seen, last, after.store) := by
    intro unit h hygienic havailable after hplay
    obtain ⟨fresh, hmade, hsessions, -⟩ :=
      session_observes_one_handle h hygienic rfl havailable (hcover h)
    obtain ⟨-, ⟨last, hsteps⟩, -⟩ := hsessions pairSession after hplay
    exact ⟨fresh, last, hmade fourPairs, hsteps⟩
  refine ⟨_, rfl, ?_, rfl, rfl, hcover rfl, ?_⟩
  · unfold Hygienic
    decide +kernel
  · refine exists_ok_of_seen ?_ fun after hplay => ?_
    · decide +kernel
    · refine hobserves ?_ ?_ ?_ hplay
      · rfl
      · unfold Hygienic
        decide +kernel
      · rfl

end Compiled

end PullIter
