import PullIter.Layout.ArgRecord
import PullIter.Kind.Describe
import PullIter.Store.Generator

/-!
# What a tree of iterables means

A tree is put together of arrays, ranges and generators by enumerate and zip.  What it means is
what draining it gives: some values and how they end.

## Main definitions

* `Trace` — some values and how they end.
* `Start` — where the count of an enumerate starts.
* `Tree` — a tree of iterables, with its kind `Tree.kind`.
* `Tree.den` — what the tree means.

## Main results

* `rangeValues_of_lt`, `countFrom_cons`, `zip_cons` — the first value, and what is behind it.
* `zip_eq_nil` — a zip ends as soon as one of its sources does.
-/

namespace PullIter

/-- Some values and how they end. -/
abbrev Trace := List Value × LoopExit

namespace Trace

/-- One value more, in front. -/
def cons (value : Value) (trace : Trace) : Trace := (value :: trace.1, trace.2)

@[simp] theorem fst_cons (value : Value) (trace : Trace) : (cons value trace).1 = value :: trace.1 :=
  rfl

@[simp] theorem snd_cons (value : Value) (trace : Trace) : (cons value trace).2 = trace.2 := rfl

/-! ### Counting -/

/-- The values with a running count, which wraps at 64 bits. -/
def countFrom (start : Int64) (values : List Value) : List Value :=
  values.zipIdx.map fun (value, i) => .pair (.i64 (start + Int64.ofNat i)) value

@[simp] theorem countFrom_nil (start : Int64) : countFrom start [] = [] := rfl

/-- The first value is counted by the start, and the others from there on. -/
theorem countFrom_cons (start : Int64) (value : Value) (values : List Value) :
    countFrom start (value :: values) =
      .pair (.i64 start) value :: countFrom (start + 1) values := by
  have hshift : ∀ i : Nat, start + Int64.ofNat (i + 1) = start + 1 + Int64.ofNat i := by
    intro i
    rw [Int64.ofNat_add, Int64.add_comm (Int64.ofNat i), ← Int64.add_assoc]
    rfl
  rw [countFrom, countFrom, List.zipIdx_cons', List.map_cons, List.map_map]
  congr 1
  · have hzero : start + Int64.ofNat 0 = start := Int64.add_zero start
    simp only [hzero]
  · apply List.map_congr_left
    intro entry _
    simp only [Function.comp, Prod.map, id, hshift]

@[simp] theorem length_countFrom (start : Int64) (values : List Value) :
    (countFrom start values).length = values.length := by
  simp [countFrom]

/-! ### Lockstep -/

/-- The number of values of the shortest of some traces. -/
def shortest : List Trace → Nat
  | [] => 0
  | [trace] => trace.1.length
  | trace :: next :: rest => min trace.1.length (shortest (next :: rest))

/-- The tuples of the values with one index. -/
def tuples (traces : List Trace) : List Value :=
  (List.range (shortest traces)).map fun i => .tuple (traces.map fun trace => trace.1.getD i default)

/-- The exit of the first of the shortest traces that fails; if none fails, they are exhausted. -/
def zipExit (traces : List Trace) : LoopExit :=
  ((traces.find? fun trace => trace.1.length = shortest traces && trace.2 ≠ .exhausted).map
    Prod.snd).getD .exhausted

/-- Some traces in lockstep. -/
def zip (traces : List Trace) : Trace := (tuples traces, zipExit traces)

theorem shortest_map_cons {parts : List (Value × Trace)} (h : parts ≠ []) :
    shortest (parts.map fun part => cons part.1 part.2) = shortest (parts.map Prod.snd) + 1 := by
  induction parts with
  | nil => exact absurd rfl h
  | cons part rest ih =>
    cases rest with
    | nil => rfl
    | cons next rest =>
      have hrest := ih (List.cons_ne_nil _ _)
      simp only [List.map_cons] at hrest ⊢
      rw [shortest, shortest, hrest, fst_cons, List.length_cons]
      omega

/-- **A tuple of the first values**, as long as there is one of each. -/
theorem zip_cons {parts : List (Value × Trace)} (h : parts ≠ []) :
    zip (parts.map fun part => cons part.1 part.2) =
      cons (.tuple (parts.map Prod.fst)) (zip (parts.map Prod.snd)) := by
  have hlen := shortest_map_cons h
  have htuples : tuples (parts.map fun part => cons part.1 part.2) =
      .tuple (parts.map Prod.fst) :: tuples (parts.map Prod.snd) := by
    rw [tuples, hlen, List.range_succ_eq_map, List.map_cons, List.map_map, List.map_map, tuples]
    congr 1
    apply List.map_congr_left
    intro i _
    simp only [Function.comp_def, List.map_map]
    rfl
  have hexit : zipExit (parts.map fun part => cons part.1 part.2) =
      zipExit (parts.map Prod.snd) := by
    rw [zipExit, zipExit, hlen, List.find?_map, List.find?_map, Option.map_map, Option.map_map]
    have hsame : ∀ part : Value × Trace,
        decide ((cons part.1 part.2).1.length = shortest (parts.map Prod.snd) + 1) =
          decide (part.2.1.length = shortest (parts.map Prod.snd)) := by
      intro part
      simp
    simp only [Function.comp_def, hsame]
    rfl
  rw [zip, htuples, hexit]
  rfl

theorem shortest_eq_zero {traces : List Trace} (h : ∃ trace ∈ traces, trace.1 = []) :
    shortest traces = 0 := by
  induction traces with
  | nil => rfl
  | cons trace rest ih =>
    obtain ⟨ended, hm, hnil⟩ := h
    cases rest with
    | nil =>
      rw [List.mem_singleton.mp hm] at hnil
      rw [shortest, hnil]
      rfl
    | cons next rest =>
      rw [shortest]
      rcases List.mem_cons.mp hm with rfl | hm
      · rw [hnil, List.length_nil, Nat.zero_min]
      · rw [ih ⟨ended, hm, hnil⟩, Nat.min_zero]

/-- The trace has ended with a failure. -/
def hasFailed (trace : Trace) : Bool := trace.1.isEmpty && trace.2 ≠ .exhausted

/-- **A zip ends** as soon as one of its sources does: with the failure of the first that has
failed, if there is one. -/
theorem zip_eq_nil {traces : List Trace} (h : ∃ trace ∈ traces, trace.1 = []) :
    zip traces = ([], ((traces.find? hasFailed).map Prod.snd).getD .exhausted) := by
  have hpred : (fun trace : Trace => decide (trace.1.length = 0) && decide (trace.2 ≠ .exhausted)) =
      hasFailed := by
    funext trace
    unfold hasFailed
    cases trace.1 <;> rfl
  rw [zip, tuples, zipExit, shortest_eq_zero h, ← hpred]
  rfl

/-- A number of copies of one trace in lockstep. -/
theorem zip_replicate {n : Nat} (pos : 0 < n) (values : List Value) :
    zip (List.replicate n (values, .exhausted)) =
      (values.map fun value => .tuple (List.replicate n value), .exhausted) := by
  induction values with
  | nil =>
    have hended : ∃ trace ∈ List.replicate n (([], .exhausted) : Trace), trace.1 = [] :=
      ⟨_, List.mem_replicate.mpr ⟨Nat.ne_of_gt pos, rfl⟩, rfl⟩
    have hnone : (List.replicate n (([], .exhausted) : Trace)).find? hasFailed = none := by
      rw [List.find?_eq_none]
      intro trace hm
      rw [List.eq_of_mem_replicate hm]
      decide
    rw [zip_eq_nil hended, hnone]
    rfl
  | cons value values ih =>
    have hparts : List.replicate n ((value :: values, .exhausted) : Trace) =
        (List.replicate n (value, ((values, .exhausted) : Trace))).map
          fun part => cons part.1 part.2 := by
      rw [List.map_replicate]
      rfl
    have hne : List.replicate n (value, ((values, .exhausted) : Trace)) ≠ [] := by
      rw [Ne, List.replicate_eq_nil_iff]
      exact Nat.ne_of_gt pos
    rw [hparts, zip_cons hne, List.map_replicate, List.map_replicate, ih]
    rfl

theorem shortest_le {traces : List Trace} : ∀ trace ∈ traces, shortest traces ≤ trace.1.length := by
  induction traces with
  | nil => intro trace hm; simp at hm
  | cons first rest ih =>
    intro trace hm
    cases rest with
    | nil =>
      rw [List.mem_singleton.mp hm]
      exact Nat.le_refl _
    | cons next rest =>
      rw [shortest]
      rcases List.mem_cons.mp hm with rfl | hm
      · exact Nat.min_le_left ..
      · exact Nat.le_trans (Nat.min_le_right ..) (ih trace hm)

/-- A zip has no more values than any of its sources. -/
theorem length_zip_le {traces : List Trace} : ∀ trace ∈ traces,
    (zip traces).1.length ≤ trace.1.length := by
  intro trace hm
  rw [zip, tuples, List.length_map, List.length_range]
  exact shortest_le trace hm

end Trace

/-! ### Ranges -/

/-- The numbers from a start up to, but without, a stop. -/
def rangeValues (start stop : Int64) : List Int64 :=
  (List.range (stop.toInt - start.toInt).toNat).map fun i : Nat => Int64.ofInt (start.toInt + i)

theorem rangeValues_of_le {start stop : Int64} (h : stop ≤ start) : rangeValues start stop = [] := by
  have hle : stop.toInt ≤ start.toInt := Int64.le_iff_toInt_le.mp h
  rw [rangeValues, Int.toNat_of_nonpos (by omega)]
  rfl

/-- The successor of a number below another one does not wrap. -/
theorem toInt_add_one_of_lt {number bound : Int64} (h : number < bound) :
    (number + 1).toInt = number.toInt + 1 := by
  have hlt : number.toInt < bound.toInt := Int64.lt_iff_toInt_lt.mp h
  have hbound := bound.toInt_lt
  have hnumber := number.le_toInt
  rw [Int64.toInt_add]
  exact Int.bmod_eq_of_le (by simp; omega) (by simp; omega)

/-- A range that has a value begins with its start. -/
theorem rangeValues_of_lt {start stop : Int64} (h : start < stop) :
    rangeValues start stop = start :: rangeValues (start + 1) stop := by
  have hlt : start.toInt < stop.toInt := Int64.lt_iff_toInt_lt.mp h
  have hnext := toInt_add_one_of_lt h
  have hlen : (stop.toInt - start.toInt).toNat = (stop.toInt - (start + 1).toInt).toNat + 1 := by
    rw [hnext]
    omega
  rw [rangeValues, hlen, List.range_succ_eq_map, List.map_cons, List.map_map, rangeValues]
  congr 1
  · simp
  · apply List.map_congr_left
    intro i _
    simp only [Function.comp, hnext]
    congr 1
    omega

theorem length_rangeValues_lt (start stop : Int64) : (rangeValues start stop).length < UInt64.size := by
  have hsize : UInt64.size = 2 ^ 64 := rfl
  have hstop := stop.toInt_lt
  have hstart := start.le_toInt
  rw [rangeValues, List.length_map, List.length_range]
  omega

/-! ### Trees -/

/-- Where the count of an enumerate starts. -/
inductive Start
  | absent
  | bool (b : Bool)
  | i32 (n : Int32)
  | i64 (n : Int64)

namespace Start

/-- The argument that says so. -/
def args : Start → List Arg
  | absent => []
  | bool b => [.bool b]
  | i32 n => [.i32 n]
  | i64 n => [.i64 n]

/-- The first count. -/
def count : Start → Int64
  | absent => 0
  | bool b => if b then 1 else 0
  | i32 n => n.toInt64
  | i64 n => n

end Start

/-- A tree of iterables. -/
inductive Tree
  | array (elements : List Int64)
  /-- The numbers from a start up to a stop. -/
  | range (start stop : Int64)
  /-- A generator that yields some values and then returns, possibly with a failure word. -/
  | generator (name : String) (yields : Yields) (failure : Option Int32)
  | enumerate (source : Tree) (start : Start)
  | zip (sources : List Tree)

/-- How a generator ends.  A reserved word does not tell a failure, and is replaced. -/
def failureExit : Option Int32 → LoopExit
  | none => .exhausted
  | some code => .failed (if code = Status.ok ∨ code = Status.stop then Status.error else code)

namespace Tree

mutual

/-- The kind of a tree. -/
def kind : Tree → Kind
  | array _ => .array
  | range _ _ => .range
  | generator name _ _ => .coroutine name
  | enumerate source _ => .enumerate (kind source)
  | zip sources => .zip (kinds sources)

/-- The kinds of some trees. -/
def kinds : List Tree → List Kind
  | [] => []
  | tree :: rest => kind tree :: kinds rest

end

mutual

/-- **What a tree means.** -/
def den : Tree → Trace
  | array elements => (elements.map .i64, .exhausted)
  | range start stop => ((rangeValues start stop).map .i64, .exhausted)
  | generator _ yields failure => (yields.toList.map .i64, failureExit failure)
  | enumerate source start => (Trace.countFrom start.count (den source).1, (den source).2)
  | zip sources => Trace.zip (dens sources)

/-- What some trees mean. -/
def dens : List Tree → List Trace
  | [] => []
  | tree :: rest => den tree :: dens rest

end

theorem kinds_replicate (n : Nat) (tree : Tree) :
    kinds (List.replicate n tree) = List.replicate n tree.kind := by
  induction n with
  | zero => rfl
  | succ n ih => rw [List.replicate_succ, kinds, ih, List.replicate_succ]

theorem dens_replicate (n : Nat) (tree : Tree) :
    dens (List.replicate n tree) = List.replicate n tree.den := by
  induction n with
  | zero => rfl
  | succ n ih => rw [List.replicate_succ, dens, ih, List.replicate_succ]

/-- The tree is an array, which any number of iterators may share. -/
def isArray : Tree → Bool
  | array _ => true
  | _ => false

end Tree

end PullIter
