import PullIter.Proofs.Shared.Later
import PullIter.Proofs.Tree.Step

/-!
# Ranges up to the limits

The record of a range has a word for its next number and a word for the number of its calls, and a
call increments them.  The next number is only incremented below the stop, so it never leaves its
word, wherever the stop is.  The calls are also counted behind the stop, and there is room for all
counts below `2 ^ 64`.  A range can have more numbers than a signed word tells, so what its calls do
is told in unbounded numbers.

## Main definitions

* `RangeRecord`, `Store.range?` — a range as its words tell it.
* `RangeRecord.advance`, `RangeRecord.overflows` — what a call makes of a range, and whether one of
  its increments overflows.
* `RangeRecord.Stands` — where a range stands behind some calls.
* `Store.rangeCalls` — a range that is called some times.
* `RangeCall` — one of these calls.

## Main results

* `RangeRecord.overflows_eq_false_iff` — nothing but the count can overflow.
* `RangeRecord.overflows_eq_false_iff_exact` — an increment that overflows is not that of unbounded
  numbers.
* `RangeRecord.Stands.advance`, `Store.exists_rangeCall` — one call.
* `Store.rangeCalls_exact` — **all calls of a range.**
-/

namespace PullIter

/-- A range, as the words of its record tell it. -/
structure RangeRecord where
  /-- The number that is next, if it is below the stop. -/
  next : Int64
  stop : Int64
  /-- The number of calls. -/
  calls : UInt64
  deriving DecidableEq, Repr

/-- The range that some words tell. -/
def RangeRecord.ofWords (words : Words) : RangeRecord :=
  ⟨(words.peek 0).toInt64, (words.peek 1).toInt64, words.peek Store.rangeCallsIndex⟩

/-- The range at an address. -/
def Store.range? (store : Store) (address : UInt64) : Option RangeRecord :=
  match store.get? address with
  | some (.block _ words) => some (.ofWords words)
  | _ => none

/-! ### What a call makes of a record -/

namespace RangeRecord

/-- What a call makes of a range. -/
def advance (record : RangeRecord) : RangeRecord :=
  { record with
    next := if record.next < record.stop then record.next + 1 else record.next
    calls := record.calls + 1 }

/-- A call of the range makes an increment that overflows: that of the count, or that of a number
below the stop. -/
def overflows (record : RangeRecord) : Bool :=
  record.calls.toBitVec.uaddOverflow 1 ||
    (record.next < record.stop && record.next.toBitVec.saddOverflow 1)

/-- **Nothing but the count can overflow.**  A number below the stop is not the largest one, also if
the stop is. -/
theorem overflows_eq_false_iff (record : RangeRecord) :
    record.overflows = false ↔ record.calls.toNat + 1 < UInt64.size := by
  have hnumber : (record.next < record.stop && record.next.toBitVec.saddOverflow 1) = false := by
    rw [Bool.and_eq_false_imp, decide_eq_true_iff]
    intro hlt
    -- the successor is a 64-bit number itself
    have hsucc := toInt_add_one_of_lt hlt
    have hbound := (record.next + 1).toInt_lt
    have hnext := record.next.le_toInt
    rw [BitVec.saddOverflow, Int64.toInt_toBitVec, Bool.or_eq_false_iff, decide_eq_false_iff_not,
      decide_eq_false_iff_not, show (1 : BitVec 64).toInt = 1 from rfl]
    omega
  have hsize : UInt64.size = 2 ^ 64 := rfl
  rw [overflows, hnumber, Bool.or_false, BitVec.uaddOverflow, decide_eq_false_iff_not,
    UInt64.toNat_toBitVec, show (1 : BitVec 64).toNat = 1 from rfl]
  omega

/-- The number moves on exactly, whether it is below the stop or not. -/
theorem toInt_next_advance (record : RangeRecord) : record.advance.next.toInt =
    record.next.toInt + if record.next < record.stop then 1 else 0 := by
  by_cases hlt : record.next < record.stop
  · simp only [advance, if_pos hlt, toInt_add_one_of_lt hlt]
  · simp only [advance, if_neg hlt, Int.add_zero]

/-- **An increment that overflows** is one that does not add as unbounded numbers do. -/
theorem overflows_eq_false_iff_exact (record : RangeRecord) : record.overflows = false ↔
    record.advance.calls.toNat = record.calls.toNat + 1 ∧ record.advance.next.toInt =
      record.next.toInt + if record.next < record.stop then 1 else 0 := by
  have hcalls : record.advance.calls.toNat = (record.calls.toNat + 1) % UInt64.size :=
    UInt64.toNat_add ..
  rw [overflows_eq_false_iff, hcalls, and_iff_left record.toInt_next_advance]
  refine ⟨Nat.mod_eq_of_lt, fun h => ?_⟩
  -- a remainder that is the sum is below the modulus
  rw [← h]
  exact Nat.mod_lt _ (by decide)

/-- **Where a range from `start` to `stop` stands** behind some calls, in unbounded numbers: each call
is counted, and its number has moved on once in each call until it came to the stop. -/
structure Stands (start stop : Int64) (calls : Nat) (record : RangeRecord) : Prop where
  next : record.next.toInt = start.toInt + min (calls : Int) (max 0 (stop.toInt - start.toInt))
  stop : record.stop = stop
  calls : record.calls.toNat = calls

namespace Stands

variable {record : RangeRecord} {start stop : Int64} {calls : Nat}

theorem fresh (start stop : Int64) : Stands start stop 0 ⟨start, stop, 0⟩ := by
  refine ⟨?_, rfl, rfl⟩
  simp only
  omega

/-- There is a number left exactly in the first calls. -/
theorem next_lt_stop_iff (h : record.Stands start stop calls) :
    record.next < record.stop ↔ (calls : Int) < stop.toInt - start.toInt := by
  rw [Int64.lt_iff_toInt_lt, h.next, h.stop]
  omega

theorem overflows_eq_false (h : record.Stands start stop calls) (hlt : calls + 1 < UInt64.size) :
    record.overflows = false := by
  rw [overflows_eq_false_iff, h.calls]
  exact hlt

/-- **One more call.** -/
theorem advance (h : record.Stands start stop calls) (hlt : calls + 1 < UInt64.size) :
    record.advance.Stands start stop (calls + 1) := by
  obtain ⟨hcount, hnext⟩ :=
    record.overflows_eq_false_iff_exact.mp (h.overflows_eq_false hlt)
  refine ⟨?_, h.stop, by rw [hcount, h.calls]⟩
  simp only [hnext, h.next, h.next_lt_stop_iff]
  split <;> omega

end Stands

end RangeRecord

/-! ### Calls of a range -/

/-- **The call of a range behind `calls` others.**  None of its increments overflows.  As long as
there is a number left, it gives the number and moves on by one; afterwards it says that the range is
exhausted, stores nothing and stays where it is. -/
structure RangeCall (start stop : Int64) (calls : Nat) (before : RangeRecord) (step : Step)
    (after : RangeRecord) : Prop where
  fits : before.overflows = false
  counted : before.calls.toNat = calls ∧ after.calls.toNat = calls + 1
  number : (calls : Int) < stop.toInt - start.toInt →
    step.status = 0 ∧ (∃ value : Int64, value.toInt = start.toInt + calls ∧
      step.writes = [.word value]) ∧ after.next.toInt = before.next.toInt + 1
  ended : stop.toInt - start.toInt ≤ calls →
    step.status = -3 ∧ step.writes = [] ∧ after.next = before.next

namespace Store

/-- Call a range some times.  Each call is told with the store it is made in. -/
def rangeCalls (range : UInt64) : Nat → Store → Except Fault (List (Store × Step) × Store)
  | 0, store => .ok ([], store)
  | n + 1, store =>
    match store.rangeNext range with
    | .error fault => .error fault
    | .ok step =>
      (rangeCalls range n step.store).map fun (calls, last) => ((store, step) :: calls, last)

variable {store made : Store} {range : UInt64} {record : RangeRecord} {start stop : Int64}

/-- **A call advances the record**, and gives the number of the record if it is below the stop. -/
theorem exists_rangeNext_of_range? (h : store.range? range = some record) :
    ∃ step, store.rangeNext range = .ok step ∧ step.store.range? range = some record.advance ∧
      (record.next < record.stop ∧ step.status = Status.ok ∧ step.writes = [.word record.next] ∨
        record.stop ≤ record.next ∧ step.status = Status.stop ∧ step.writes = []) := by
  unfold range? at h
  split at h
  · next block words cell =>
    cases h
    -- a call of a block answers, and what it answers is told by the words before and after it
    obtain ⟨step, -, hnext, -⟩ := Tree.exists_rangeNext cell
    obtain ⟨_, _, words', cell', hstop, hafter, hcalls, hcases⟩ := rangeNext_eq_ok hnext
    rw [cell] at cell'
    cases cell'
    have hcell : step.store.range? range = some (.ofWords words') := by
      rw [range?, hafter, get?_set_self cell]
    refine ⟨step, hnext, ?_, ?_⟩
    · rw [hcell, RangeRecord.ofWords, RangeRecord.ofWords, RangeRecord.advance, hstop, hcalls]
      rcases hcases with ⟨hlt, hnumber, -⟩ | ⟨hle, hnumber, -⟩
      · rw [if_pos hlt, hnumber, UInt64.toInt64_add]
        rfl
      · rw [if_neg (Int64.not_lt.mpr hle), hnumber]
    · rcases hcases with ⟨hlt, -, htold⟩ | ⟨hle, -, htold⟩
      · exact .inl ⟨hlt, htold⟩
      · exact .inr ⟨hle, htold⟩
  · cases h

/-- **One call** of a range that was called some times before. -/
theorem exists_rangeCall {calls : Nat} (h : store.range? range = some record)
    (hs : record.Stands start stop calls) (hlt : calls + 1 < UInt64.size) :
    ∃ step, store.rangeNext range = .ok step ∧ step.store.range? range = some record.advance ∧
      RangeCall start stop calls record step record.advance := by
  obtain ⟨step, hnext, hafter, htold⟩ := exists_rangeNext_of_range? h
  have hleft := hs.next_lt_stop_iff
  refine ⟨step, hnext, hafter, hs.overflows_eq_false hlt, ⟨hs.calls, (hs.advance hlt).calls⟩,
    fun hnumber => ?_, fun hended => ?_⟩
  · rcases htold with ⟨hbelow, hstatus, hwrites⟩ | ⟨hle, -⟩
    · refine ⟨hstatus, ⟨record.next, ?_, hwrites⟩, ?_⟩
      · rw [hs.next]
        omega
      · rw [record.toInt_next_advance, if_pos hbelow]
    · exact absurd (hleft.mpr hnumber) (Int64.not_lt.mpr hle)
  · have hle : ¬record.next < record.stop := fun hbelow => by
      have hnumber := hleft.mp hbelow
      omega
    rcases htold with ⟨hbelow, -⟩ | ⟨-, hstatus, hwrites⟩
    · exact absurd hbelow hle
    · exact ⟨hstatus, hwrites, if_neg hle⟩

/-- Calls of a range that was called some times before.  The induction is on the calls to come. -/
theorem rangeCalls_of_stands (n : Nat) :
    ∀ {store : Store} {record : RangeRecord} {before : Nat}, store.range? range = some record →
      record.Stands start stop before → before + n < UInt64.size →
      ∃ calls last after, store.rangeCalls range n = .ok (calls, last) ∧ calls.length = n ∧
        (∀ {k current step}, calls[k]? = some (current, step) → ∃ record record',
          current.range? range = some record ∧ step.store.range? range = some record' ∧
            RangeCall start stop (before + k) record step record') ∧
        last.range? range = some after ∧ after.Stands start stop (before + n) := by
  induction n with
  | zero => exact fun h hs _ => ⟨[], _, _, rfl, rfl, nofun, h, hs⟩
  | succ n ih =>
    intro store record before h hs hlt
    obtain ⟨step, hnext, hafter, hcall⟩ := exists_rangeCall h hs (by omega)
    obtain ⟨calls, last, after, hrun, hlength, hcalls, hlast, hstands⟩ :=
      ih hafter (hs.advance (by omega)) (by omega)
    rw [Nat.add_assoc, Nat.add_comm 1 n] at hstands
    refine ⟨(store, step) :: calls, last, after, ?_, ?_, fun {k} _ _ hk => ?_, hlast, hstands⟩
    · rw [rangeCalls, hnext]
      simp only [hrun]
      rfl
    · rw [List.length_cons, hlength]
    · cases k with
      | zero =>
        cases hk
        exact ⟨record, record.advance, h, hafter, hcall⟩
      | succ k =>
        -- behind the first call, one more has been made before each of the others
        rw [Nat.add_comm k 1, ← Nat.add_assoc]
        exact hcalls hk

/-- A new range has not been called. -/
theorem range?_of_newRange (hwf : store.WellFormed)
    (hmade : store.newRange start stop = .ok (range, made)) :
    made.range? range = some ⟨start, stop, 0⟩ := by
  unfold newRange at hmade
  obtain ⟨address, after, hnew, heq⟩ := made_of_map (by decide) (by decide) hmade
  cases heq
  have hcell : (after.count .rangeIter 1).get? range =
      some (.block ⟨24, 8⟩ [start.toUInt64, stop.toUInt64, 0]) := hnew.found hwf
  rw [range?, hcell]
  rfl

/-- **Calls of a range**, of any start and stop, always answer, and no increment ever overflows.  The
first calls, as many as there are numbers, give the numbers in order; every later call tells that the
range is exhausted, stores nothing and does not move it.  All calls are counted. -/
theorem rangeCalls_exact {n : Nat} (hwf : store.WellFormed)
    (hmade : store.newRange start stop = .ok (range, made)) (hlt : n < UInt64.size) :
    ∃ calls last record, made.rangeCalls range n = .ok (calls, last) ∧ calls.length = n ∧
      (∀ {k current step}, calls[k]? = some (current, step) → ∃ before after,
        current.range? range = some before ∧ step.store.range? range = some after ∧
          RangeCall start stop k before step after) ∧
      last.range? range = some record ∧ record.Stands start stop n := by
  obtain ⟨calls, last, record, hrun, hlength, hcalls, hlast, hstands⟩ :=
    rangeCalls_of_stands n (range?_of_newRange hwf hmade) (.fresh start stop)
      (by rwa [Nat.zero_add])
  rw [Nat.zero_add] at hstands
  refine ⟨calls, last, record, hrun, hlength, fun hk => ?_, hlast, hstands⟩
  obtain ⟨before, after, hbefore, hafter, hcall⟩ := hcalls hk
  rw [Nat.zero_add] at hcall
  exact ⟨before, after, hbefore, hafter, hcall⟩

/-- A range whose stop is the largest number, and whose only number is the one below it.  It moves to
the largest number and stays there. -/
theorem rangeCalls_exact_largest : ∃ range made calls last, empty.WellFormed ∧
    empty.newRange (Int64.maxValue - 1) Int64.maxValue = .ok (range, made) ∧ 3 < UInt64.size ∧
    made.rangeCalls range 3 = .ok (calls, last) ∧
    calls.map (fun call => (call.2.status, call.2.writes)) =
      [(0, [.word (Int64.maxValue - 1)]), (-3, []), (-3, [])] ∧
    last.range? range = some ⟨Int64.maxValue, Int64.maxValue, 3⟩ := by
  obtain ⟨range, made, hmade⟩ : ∃ range made,
      empty.newRange (Int64.maxValue - 1) Int64.maxValue = .ok (range, made) := ⟨_, _, rfl⟩
  obtain ⟨calls, last, ⟨next, stop, count⟩, hrun, hlength, hcalls, hlast, hnext, hstop, hcount⟩ :=
    rangeCalls_exact wellFormed_empty hmade (show 3 < UInt64.size by decide)
  obtain ⟨first, second, third, rfl⟩ := List.length_eq_three.mp hlength
  obtain ⟨_, _, _, _, hfirst⟩ := @hcalls 0 _ _ rfl
  obtain ⟨_, _, _, _, hsecond⟩ := @hcalls 1 _ _ rfl
  obtain ⟨_, _, _, _, hthird⟩ := @hcalls 2 _ _ rfl
  obtain ⟨hok, ⟨value, hvalue, hword⟩, -⟩ := hfirst.number (by decide)
  obtain ⟨hstop2, hnothing2, -⟩ := hsecond.ended (by decide)
  obtain ⟨hstop3, hnothing3, -⟩ := hthird.ended (by decide)
  obtain rfl : value = Int64.maxValue - 1 := Int64.toInt_inj.mp hvalue
  obtain rfl : next = Int64.maxValue := Int64.toInt_inj.mp hnext
  obtain rfl : count = 3 := UInt64.toNat_inj.mp hcount
  refine ⟨range, made, _, last, wellFormed_empty, hmade, by decide, hrun, ?_, hstop ▸ hlast⟩
  simp only [List.map_cons, List.map_nil, hok, hword, hstop2, hnothing2, hstop3, hnothing3]

end Store

end PullIter
