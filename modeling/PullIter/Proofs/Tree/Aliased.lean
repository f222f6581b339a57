import PullIter.Proofs.Host.Atomicity
import PullIter.Proofs.Tree.OneShot

/-!
# A zip of references to one source

The sources of a zip may all be one object.  An iterator is its own iterator, so all sources share
its state, and a tuple has as many numbers of it as the zip has sources.  An array is no iterator:
each source gets its own over it, and a tuple has one element as often as the zip has sources.  The
array counts the steps of all of them.

## Main definitions

* `Reads` — an iterator over an array.
* `ZipDrains` — a zip of references to one object is made and drained, unless there is no storage left.

## Main results

* `exists_nextRound_array` — one round over iterators over one array.
* `Remains.zipDrains`, `zipDrains_array` — a zip of references to one iterator, and to one array.
* `zip_of_one` — **what a zip of references to one source gives.**
-/

namespace PullIter.Tree

open Store (Frame Only)

variable {unit : Compiled} {options : Options} {externals : List (String × Provider)}
  {requests : List Request} {store : Store}

/-! ### Iterators over one array -/

/-- An iterator over an array keeps the address of the array in its first word. -/
def Reads (store : Store) (array iterator : UInt64) : Prop :=
  ∃ block cursor, store.get? iterator = some (.block block cursor) ∧ cursor.peek 0 = array

/-- **A step of an iterator over an array** is counted, and never fails.  No other iterator is
moved. -/
theorem Reads.exists_next (hr : unit.RunsRuntime) {array iterator : UInt64} {elements : List Int64}
    {calls : Nat} (h : Reads store array iterator)
    (ha : store.get? array = some (.array elements calls)) :
    ∃ step, Exec.next unit.provided .array iterator store = .ok step ∧
      step.status.isFailure = false ∧ step.store.get? array = some (.array elements (calls + 1)) ∧
      (∀ other, Reads store array other → Reads step.store array other) ∧
      ∀ address block words, address ≠ iterator → store.get? address = some (.block block words) →
        step.store.get? address = some (.block block words) := by
  obtain ⟨block, cursor, hcell, rfl⟩ := h
  obtain ⟨inner, hinner, hstatus, -, hafter, hcounted, hmoves⟩ := Store.arrayNext_of_get? hcell ha
  have hothers : ∀ address block words, address ≠ iterator →
      store.get? address = some (.block block words) →
      inner.store.get? address = some (.block block words) := by
    intro address block words hne hb
    rw [hmoves.others address fun hm => hne (List.mem_singleton.mp hm), hb]
    rfl
  refine ⟨_, (Compiled.next_array hr _ _).trans (linkedNext_of_next _ hinner), ?_, hcounted,
    fun other hother => ?_, hothers⟩
  · show inner.status.isFailure = false
    rw [hstatus, Store.arrayAnswer]
    split
    · rfl
    · rfl
  · by_cases heq : other = iterator
    · subst heq
      exact ⟨block, _, hafter, Store.peek_arrayAnswer elements cursor⟩
    · obtain ⟨block', cursor', hcell', hfirst⟩ := hother
      exact ⟨block', cursor', hothers other block' cursor' heq hcell', hfirst⟩

/-- **A round over iterators over one array** has as many steps as there are iterators. -/
theorem exists_nextRound_array (hr : unit.RunsRuntime) {array state : UInt64}
    {elements : List Int64} {block : Block} {words : Words} (n : Nat) :
    ∀ {store : Store} {index calls : Nat} {slots : List Nat} {valid : Bool}, slots.length = n →
      (∀ i < n, Reads store array (words.peek (index + i)) ∧ words.peek (index + i) ≠ state) →
      store.get? state = some (.block block words) →
      store.get? array = some (.array elements calls) →
      ∃ step, Exec.nextRound unit.provided (List.replicate n .array) state index slots valid store =
          .ok step ∧ step.store.get? array = some (.array elements (calls + n)) := by
  induction n with
  | zero =>
    intro store index calls slots valid _ _ _ ha
    exact ⟨_, Exec.nextRound_nil .., ha⟩
  | succ n ih =>
    intro store index calls slots valid hlen hreads hcell ha
    obtain ⟨slot, slots, rfl⟩ := List.exists_cons_of_length_eq_add_one hlen
    obtain ⟨hfirst, hne⟩ := hreads 0 (Nat.succ_pos n)
    obtain ⟨step, hruns, hfail, hcounted, hkept, hblocks⟩ := hfirst.exists_next hr ha
    obtain ⟨last, hlast, htotal⟩ := @ih step.store (index + 1) (calls + 1) slots
      (valid && decide (step.status = Status.ok)) (Nat.succ.inj hlen) (fun i hi => by
        rw [Nat.add_assoc, Nat.add_comm 1 i]
        obtain ⟨hread, hapart⟩ := hreads (i + 1) (Nat.succ_lt_succ hi)
        exact ⟨hkept _ hread, hapart⟩) (hblocks state block words hne.symm hcell) hcounted
    refine ⟨⟨last.status, step.writes.map (Write.shift slot) ++ last.writes, last.store⟩, ?_,
      by rw [htotal, Nat.add_assoc, Nat.add_comm 1 n]⟩
    have hpeek : store.peek state index = .ok (words.peek index) := Store.peek_of_get? hcell _
    rw [List.replicate_succ]
    exact Exec.nextRound_of_not_failure hpeek hruns hfail hlast

/-- Sources that are all arrays have iterators over arrays, if there is one array only. -/
theorem reads_of_itersAt {array : UInt64} {words : Words} {n : Nat} : ∀ {trees : List Tree}
    {index : Nat} {own : List UInt64}, ItersAt [array] store trees words index own →
      kinds trees = List.replicate n .array →
      ∀ i < n, Reads store array (words.peek (index + i)) ∧ words.peek (index + i) ∈ own := by
  induction n with
  | zero => exact fun _ _ i hi => absurd hi (Nat.not_lt_zero i)
  | succ n ih =>
    intro trees index own h hkinds i hi
    cases h with
    | nil => cases hkinds
    | @cons tree trees _ _ own own' first rest _ =>
      rw [kinds, List.replicate_succ, List.cons.injEq] at hkinds
      obtain ⟨hkind, hkinds⟩ := hkinds
      cases i with
      | zero =>
        cases first with
        | array cell source =>
          exact ⟨⟨_, _, cell, List.mem_singleton.mp source⟩,
            List.mem_append_left _ (List.mem_singleton_self _)⟩
        | range => cases hkind
        | generator => cases hkind
        | enumerate => cases hkind
        | zip => cases hkind
      | succ i =>
        obtain ⟨hread, hmem⟩ := ih rest hkinds i (Nat.lt_of_succ_lt_succ hi)
        rw [Nat.add_assoc, Nat.add_comm 1 i] at hread hmem
        exact ⟨hread, List.mem_append_right _ hmem⟩

/-- **One step of a zip of iterators over one array** is counted once for each of them. -/
theorem exists_next_zip_array (hr : unit.RunsRuntime) {array state : UInt64} {elements : List Int64}
    {calls n : Nat} {trees : List Tree} {own : List UInt64} (pos : 0 < n)
    (hkinds : kinds trees = List.replicate n .array)
    (h : IterAt [array] store (.zip trees) state own)
    (ha : store.get? array = some (.array elements calls)) :
    ∃ step, Advances unit [array] (.zip trees) state own store step ∧
      step.store.get? array = some (.array elements (calls + n)) := by
  have harrays : ArraysAt [array] store := fun a hm =>
    ⟨elements, calls, by rw [List.mem_singleton.mp hm]; exact ha⟩
  obtain ⟨step, hstep⟩ := IterAt.advances hr (.zip trees) harrays h
  refine ⟨step, hstep, ?_⟩
  cases h with
  | @zip _ block words _ own cell inner apart =>
    obtain ⟨m, rfl⟩ := Nat.exists_eq_succ_of_ne_zero (Nat.ne_of_gt pos)
    have hreads := reads_of_itersAt inner hkinds
    obtain ⟨last, hlast, htotal⟩ := @exists_nextRound_array unit hr array state elements block words
      (m + 1) store 0 calls (Exec.slots (.zip (List.replicate (m + 1) .array))) true
      (by rw [Exec.length_slots_zip, List.length_replicate]) (fun i hi => by
        obtain ⟨hread, hmem⟩ := hreads i hi
        exact ⟨hread, fun heq => apart (heq ▸ hmem)⟩) cell ha
    -- it is the same round
    have hruns := hstep.runs
    rw [kind, hkinds, List.replicate_succ, Exec.next_zip_cons] at hruns
    rw [List.replicate_succ] at hlast
    cases hruns.symm.trans hlast
    exact htotal

/-- **A drain of a zip of iterators over one array** is counted once for each of them and each step,
the last one included. -/
theorem drainWithin_zip_array (hr : unit.RunsRuntime) {array : UInt64} {elements : List Int64}
    {calls n : Nat} {trees : List Tree} {own : List UInt64} (pos : 0 < n)
    (hkinds : kinds trees = List.replicate n .array) {handle : Handle}
    (h : IterAt [array] store (.zip trees) handle.iterator own)
    (ha : store.get? array = some (.array elements calls))
    (hd : handle.Drives unit (.zip (List.replicate n .array))) {fuel : Nat}
    (hlt : (den (.zip trees)).1.length < fuel) : ∃ last after,
      handle.drainWithin unit fuel store = .ok (den (.zip trees), last, after) ∧
      after.get? array =
        some (.array elements (calls + n * ((den (.zip trees)).1.length + 1))) := by
  refine @drainWithin_of_answers unit (.zip (List.replicate n .array)) handle.iterator
    (fun trace store => ∃ left calls', kinds left = List.replicate n .array ∧
      den (.zip left) = trace ∧ IterAt [array] store (.zip left) handle.iterator own ∧
      store.get? array = some (.array elements calls') ∧
      calls' + n * (trace.1.length + 1) = calls + n * ((den (.zip trees)).1.length + 1))
    (fun after => after.get? array =
      some (.array elements (calls + n * ((den (.zip trees)).1.length + 1)))) ?_ fuel handle _ store
    hd rfl ⟨trees, calls, hkinds, rfl, h, ha, rfl⟩ hlt
  -- what has been counted and what the rest will count is the same all along
  rintro trace store ⟨left, calls', hkinds, rfl, h, ha, htotal⟩
  obtain ⟨step, hstep, hcounted⟩ := exists_next_zip_array hr pos hkinds h ha
  have hkind : kind (.zip left) = .zip (List.replicate n .array) := by rw [kind, hkinds]
  refine ⟨step, hkind ▸ hstep.runs, hkind ▸ hstep.answers, fun value rest hden => ?_, fun hnil => ?_⟩
  · obtain ⟨next, hnext, hrest, hiter⟩ := hstep.rest value rest hden
    rw [hkind] at hnext
    cases hiter with
    | array => cases hnext
    | range => cases hnext
    | generator => cases hnext
    | enumerate => cases hnext
    | zip cell inner apart =>
      rw [kind, Kind.zip.injEq] at hnext
      refine ⟨_, _, hnext, hrest, .zip cell inner apart, hcounted, ?_⟩
      rw [hden, Trace.fst_cons, List.length_cons, Nat.mul_succ] at htotal
      omega
  · rw [hnil, List.length_nil, Nat.zero_add, Nat.mul_one] at htotal
    rw [hcounted, htotal]

/-! ### Making and draining -/

/-- A zip of references to one object is made and drained, unless there is no storage left for it. -/
def ZipDrains (unit : Compiled) (kind : Kind) (n : Nat) (object : UInt64) (store : Store)
    (trace : Trace) (After : Store → Prop) : Prop :=
  let made := unit.hostConstruct (.zip (List.replicate n kind)) (List.replicate n (.ptr object)) store
  made = .error .outOfMemory ∨ made = .error .badBlock ∨
    ∃ zip mid handle last after, made = .ok (.ok zip, mid) ∧
      unit.hostIter (.zip (List.replicate n kind)) zip.address mid = .ok (.ok handle, mid) ∧
      handle.drain unit mid = .ok (trace, last, after) ∧ After after

/-- The argument record of references to one object. -/
abbrev copiesRecord (n : Nat) (object : UInt64) : List UInt8 :=
  Arg.record (Layout.zipArgs targetPointerBytes (List.replicate n .ptr))
    (List.replicate n (.ptr object))

theorem eq_of_getElem?_replicate {α : Type} {n i : Nat} {a b : α}
    (h : (List.replicate n a)[i]? = some b) : i < n ∧ b = a := by
  rw [List.getElem?_replicate] at h
  split at h
  · next hlt => exact ⟨hlt, (Option.some.inj h).symm⟩
  · cases h

theorem loadArg_copiesRecord {n i : Nat} (object : UInt64) (hi : i < n) :
    Exec.loadArg (Layout.zipArgs targetPointerBytes (List.replicate n .ptr)) i
      (copiesRecord n object) = .ok object := by
  have hget : (List.replicate n object)[i]? = some object := by
    rw [List.getElem?_replicate, if_pos hi]
  have hload := Exec.loadArg_zip (List.replicate n object) hget
  rwa [List.map_replicate, List.map_replicate] at hload

/-- A zip of references to one object is made and drained, if what its code makes can be drained. -/
theorem zipDrains_of_construct (h : unit.Finished options externals requests) (hr : unit.RunsRuntime)
    {kind : Kind} {role : Role} (hk : kind.role? = some role) {n : Nat}
    (requested : .constructor (.zip (List.replicate n kind)) (List.replicate n .ptr) ∈ requests)
    (available : unit.isAvailable ⟨.getiter, .zip (List.replicate n kind)⟩ = true)
    (hwf : store.WellFormed) {object : UInt64} {trace : Trace} {After : Store → Prop}
    (hdrain : ∀ {state : UInt64} {mid : Store} {handle : Handle},
      Exec.construct unit.provided (.zip (List.replicate n kind)) (List.replicate n .ptr)
        (copiesRecord n object) store = .ok (state, mid) →
      handle.Drives unit (.zip (List.replicate n kind)) → handle.iterator = state →
      ∃ last after, handle.drain unit mid = .ok (trace, last, after) ∧ After after) :
    ZipDrains unit kind n object store trace After := by
  have hrole : (Kind.zip (List.replicate n kind)).role? = some (.zip (List.replicate n role)) := by
    rw [Kind.role?, Kind.roles?_replicate hk]
    rfl
  have hkinds : (List.replicate n (Arg.ptr object)).map Arg.kind = List.replicate n .ptr :=
    List.map_replicate
  have hlinked : unit.CallsLinked (.zip (List.replicate n kind)) :=
    Compiled.callsLinked_of_role? hrole
  have hreturns := h.returns_hostConstruct hr hrole hwf (List.replicate n (.ptr object))
  unfold ZipDrains
  -- a constructor that was requested is refused by nothing but want of storage
  cases hmade : unit.hostConstruct (.zip (List.replicate n kind)) (List.replicate n (.ptr object))
      store with
  | error fault =>
    rw [hmade] at hreturns
    cases hreturns with
    | outOfMemory => exact .inl rfl
    | badBlock => exact .inr (.inl rfl)
  | ok answer =>
    obtain ⟨release, -, hrun⟩ := @Compiled.Finished.hostConstruct_of_requested _ _ _ _
      (.zip (List.replicate n kind)) h (List.replicate n (.ptr object)) (hkinds ▸ requested)
    have hcode := hmade
    rw [hrun] at hcode
    obtain ⟨⟨state, mid⟩, -, rfl⟩ := Except.exists_of_map_eq_ok hcode
    obtain ⟨-, -, layout, record, hlayout, hpack, hconstruct⟩ :=
      Compiled.hostConstruct_eq_ok h hlinked hmade
    cases hlayout
    rw [Arg.eq_record_of_pack hpack, hkinds] at hconstruct
    obtain ⟨code, hgetiter⟩ := Compiled.exists_code available
    obtain ⟨handle, hdrives, hiter⟩ := Compiled.hostIter_eq h hlinked hgetiter
    obtain ⟨last, after, hresult, hafter⟩ := hdrain hconstruct (hdrives state).2 (hdrives state).1
    refine .inr (.inr ⟨_, mid, handle state, last, after, rfl, ?_, hresult, hafter⟩)
    rw [hiter]
    rfl

/-- A zip of references to one iterator. -/
theorem Remains.zipDrains (h : unit.Finished options externals requests) (hr : unit.RunsRuntime)
    {kind : Kind} {n : Nat} (pos : 0 < n)
    (requested : .constructor (.zip (List.replicate n kind)) (List.replicate n .ptr) ∈ requests)
    (available : unit.isAvailable ⟨.getiter, .zip (List.replicate n kind)⟩ = true)
    (hwf : store.WellFormed) {object : UInt64} {numbers : List Int64} {ending : LoopExit}
    (hleft : Remains store kind object numbers ending) :
    ZipDrains unit kind n object store
      ((chunks n numbers).map fun part => .tuple (part.map .i64), ending)
      fun after => Remains after kind object [] ending := by
  obtain ⟨role, hk⟩ : ∃ role, kind.role? = some role := by
    cases hleft with
    | range => exact ⟨_, rfl⟩
    | generator => exact ⟨_, Kind.role?_coroutine _⟩
    | ended => exact ⟨_, Kind.role?_coroutine _⟩
  refine zipDrains_of_construct h hr hk requested available hwf fun {state mid handle} hc hd hi => ?_
  obtain ⟨block, words, hcell, hne, hwords, hleft⟩ :=
    hleft.construct_zip hr hwf (fun i hi => loadArg_copiesRecord object hi) hc
  refine hleft.drainWithin_zip hr pos hne hcell hwords hd hi (Nat.lt_succ_of_le ?_)
  exact Nat.le_trans (Nat.div_le_self _ _) hleft.length_le_rounds

/-- References to one array have no object in common. -/
theorem held_replicate {array : UInt64} {elements : List Int64} {calls : Nat}
    (ha : store.get? array = some (.array elements calls)) (short : elements.length < UInt64.size)
    (n : Nat) : Held [array] store (List.replicate n (.array elements, array)) [] := by
  induction n with
  | zero => exact .nil
  | succ n ih => exact .cons (.array (List.mem_singleton_self array) ha short) ih nofun

/-- Making a zip is no step of the array. -/
theorem get?_array_of_construct (hr : unit.RunsRuntime) (hwf : store.WellFormed)
    {array state : UInt64} {elements : List Int64} {calls n : Nat} {mid : Store}
    (ha : store.get? array = some (.array elements calls)) (short : elements.length < UInt64.size)
    (hframe : Frame Nobody store mid)
    (hc : Exec.construct unit.provided (.zip (List.replicate n .array)) (List.replicate n .ptr)
      (copiesRecord n array) store = .ok (state, mid)) :
    mid.get? array = some (.array elements calls) := by
  have hroles := Kind.roles?_replicate (show Kind.array.role? = some .elements from rfl) n
  have hrole : (Kind.zip (List.replicate n .array)).role? =
      some (.zip (List.replicate n .elements)) := by
    rw [Kind.role?, hroles]
    rfl
  have hmem : (array, Role.array) ∈ [(array, Role.array)] := List.mem_singleton_self _
  have hstaged : Staged [(array, .array)] store := by
    refine ⟨hwf, fun hm => ?_, fun hm hm' => ?_, fun hm hcell => ?_⟩
    · cases List.mem_singleton.mp hm
      exact (hwf.bounds ha).2
    · cases List.mem_singleton.mp hm
      cases List.mem_singleton.mp hm'
      rfl
    · cases List.mem_singleton.mp hm
      cases ha.symm.trans hcell
      exact .array short
  rw [Exec.construct_congr (Compiled.agreesOn_runtime hr hrole)] at hc
  obtain ⟨more, hgrows⟩ := Exec.grows_construct_zip hstaged hroles (fun i source hi => by
    obtain ⟨hlt, rfl⟩ := eq_of_getElem?_replicate hi
    exact ⟨array, loadArg_copiesRecord array hlt, .array, rfl, hmem⟩) hc
  -- the array is there, with some count, and nothing that is there was advanced
  obtain ⟨calls', hfound⟩ := hframe.array id ha
  cases ha.symm.trans (hgrows.still.kept hmem hfound)
  exact hfound

/-- A zip of references to one array. -/
theorem zipDrains_array (h : unit.Finished options externals requests) (hr : unit.RunsRuntime)
    {n : Nat} (pos : 0 < n)
    (requested : .constructor (.zip (List.replicate n .array)) (List.replicate n .ptr) ∈ requests)
    (available : unit.isAvailable ⟨.getiter, .zip (List.replicate n .array)⟩ = true)
    (hwf : store.WellFormed) {array : UInt64} {elements : List Int64} {calls : Nat}
    (ha : store.get? array = some (.array elements calls)) (short : elements.length < UInt64.size) :
    ZipDrains unit .array n array store
      (elements.map fun element => .tuple (List.replicate n (.i64 element)), .exhausted)
      fun after => after.get? array = some (.array elements (calls + n * (elements.length + 1))) := by
  refine zipDrains_of_construct h hr (show Kind.array.role? = some .elements from rfl) requested
    available hwf fun {state mid handle} hc hd hi => ?_
  have harrays : ArraysAt [array] store := fun a hm =>
    ⟨elements, calls, by rw [List.mem_singleton.mp hm]; exact ha⟩
  have hobjects : (List.replicate n (Tree.array elements, array)).map Prod.fst =
      List.replicate n (.array elements) := List.map_replicate
  have hkinds : kinds (List.replicate n (.array elements)) = List.replicate n .array :=
    kinds_replicate n _
  have hden : den (.zip (List.replicate n (.array elements))) =
      (elements.map fun element => .tuple (List.replicate n (.i64 element)), .exhausted) := by
    rw [den, dens_replicate, den, Trace.zip_replicate pos, List.map_map]
    rfl
  obtain ⟨hframe, own, hiter, -⟩ := @iterAt_zip unit [array] store mid hr hwf harrays
    (List.replicate n (.array elements, array)) state [] (List.replicate n .ptr)
    (copiesRecord n array) (held_replicate ha short n) (fun i object hget => by
      obtain ⟨hi, rfl⟩ := eq_of_getElem?_replicate hget
      exact loadArg_copiesRecord array hi) (by rw [hobjects, hkinds]; exact hc)
  rw [hobjects, ← hi] at hiter
  obtain ⟨last, after, hdrain, hcounted⟩ := drainWithin_zip_array hr pos hkinds hiter
    (get?_array_of_construct hr hwf ha short hframe hc) hd (Nat.lt_succ_of_le hiter.length_den_le)
  rw [hden] at hdrain hcounted
  rw [List.length_map] at hcounted
  exact ⟨last, after, hdrain, hcounted⟩

/-- **What a zip of references to one source gives.**  The sources of a zip may all be one range or
one generator, which may have been advanced before: then each tuple has the next numbers of it, one
for each source, and numbers that are too few for a tuple are used up by the last round.  Or they
may all be one array: then each tuple has one element as often as there are sources, and the array
counts a step of each source for each tuple and for the last round.  No array has more elements than
an index can count. -/
theorem zip_of_one (h : unit.Finished options externals requests)
    (runtime : ∀ external ∈ externals, ∀ routine : Intrinsic, external.1 ≠ routine.name)
    {kind : Kind} {n : Nat} (pos : 0 < n)
    (requested : .constructor (.zip (List.replicate n kind)) (List.replicate n .ptr) ∈ requests)
    (available : unit.isAvailable ⟨.getiter, .zip (List.replicate n kind)⟩ = true)
    (wellFormed : store.WellFormed) (object : UInt64) :
    (∀ {numbers ending}, Remains store kind object numbers ending →
      ZipDrains unit kind n object store
        ((chunks n numbers).map fun part => .tuple (part.map .i64), ending)
        fun after => Remains after kind object [] ending) ∧
    (∀ {elements calls}, kind = .array → store.get? object = some (.array elements calls) →
      elements.length < UInt64.size →
      ZipDrains unit kind n object store
        (elements.map fun element => .tuple (List.replicate n (.i64 element)), .exhausted)
        fun after => after.get? object =
          some (.array elements (calls + n * (elements.length + 1)))) := by
  have hr := Compiled.runsRuntime_of_finished h runtime
  refine ⟨fun hleft => hleft.zipDrains h hr pos requested available wellFormed, ?_⟩
  rintro elements calls rfl ha short
  exact zipDrains_array h hr pos requested available wellFormed ha short

/-- What is asked for: pairs of a range, and pairs of an array. -/
def doubledRequests : List Request :=
  [.constructor (.zip [.range, .range]) [.ptr, .ptr], .iterator (.zip [.range, .range]),
    .constructor (.zip [.array, .array]) [.ptr, .ptr], .iterator (.zip [.array, .array])]

/-- A range of three numbers has one pair, and the last number is lost.  An array of two elements has
two pairs, and six steps are counted. -/
theorem zip_of_one_doubled : ∃ (unit : Compiled) (range array : UInt64) (first store : Store),
    unit.Finished .debug [] doubledRequests ∧ Store.empty.newRange 3 6 = .ok (range, first) ∧
    first.newArray [7, 8] = .ok (array, store) ∧
    (∃ zip mid, unit.hostConstruct (.zip [.range, .range]) [.ptr range, .ptr range] store =
      .ok (.ok zip, mid)) ∧
    ZipDrains unit .range 2 range store ([.tuple [.i64 3, .i64 4]], .exhausted)
      (fun after => Remains after .range range [] .exhausted) ∧
    (∃ zip mid, unit.hostConstruct (.zip [.array, .array]) [.ptr array, .ptr array] store =
      .ok (.ok zip, mid)) ∧
    ZipDrains unit .array 2 array store
      ([.tuple [.i64 7, .i64 7], .tuple [.i64 8, .i64 8]], .exhausted)
      (fun after => after.get? array = some (.array [7, 8] 6)) := by
  have hdrains : ∀ {unit : Compiled} {range array : UInt64} {first store : Store} {block : Block}
      {words : Words},
      unit.Finished .debug [] doubledRequests → Store.empty.newRange 3 6 = .ok (range, first) →
      first.newArray [7, 8] = .ok (array, store) →
      store.get? range = some (.block block words) → rangeLeft words = [3, 4, 5] →
      store.get? array = some (.array [7, 8] 0) →
      unit.isAvailable ⟨.getiter, .zip [.range, .range]⟩ = true →
      unit.isAvailable ⟨.getiter, .zip [.array, .array]⟩ = true →
      ZipDrains unit .range 2 range store ([.tuple [.i64 3, .i64 4]], .exhausted)
        (fun after => Remains after .range range [] .exhausted) ∧
      ZipDrains unit .array 2 array store
        ([.tuple [.i64 7, .i64 7], .tuple [.i64 8, .i64 8]], .exhausted)
        (fun after => after.get? array = some (.array [7, 8] 6)) := by
    intro unit range array first store block words h hrange harray hcell hwords ha havailable
      havailable'
    have hleft : Remains store .range range (rangeLeft words) .exhausted := .range hcell
    rw [hwords] at hleft
    have hnone : ∀ external ∈ ([] : List (String × Provider)), ∀ routine : Intrinsic,
        external.1 ≠ routine.name := fun external hm => absurd hm List.not_mem_nil
    have hr := Compiled.runsRuntime_of_finished h hnone
    have hgrown := (@Grown.start unit _ Store.wellFormed_empty).range 3 6 hrange
    have hwf := ((hgrown.array [7, 8] harray).kept h hr).wellFormed
    obtain ⟨hpairs, -⟩ := @zip_of_one unit .debug [] doubledRequests store h hnone
      .range 2 (by decide) (by decide) havailable hwf range
    obtain ⟨-, hpairs'⟩ := @zip_of_one unit .debug [] doubledRequests store h hnone
      .array 2 (by decide) (by decide) havailable' hwf array
    exact ⟨hpairs hleft, hpairs' rfl ha (by decide)⟩
  obtain ⟨hpairs, hpairs'⟩ := hdrains rfl rfl rfl rfl rfl rfl rfl rfl
  exact ⟨_, _, _, _, _, rfl, rfl, rfl, ⟨_, _, rfl⟩, hpairs, ⟨_, _, rfl⟩, hpairs'⟩

end PullIter.Tree
