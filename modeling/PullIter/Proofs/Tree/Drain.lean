import PullIter.Proofs.Tree.Grown

/-!
# Draining a tree

An iterator of a tree that has been made and not been stepped yet is drained to what the tree
means.

## Main results

* `drainWithin_of_answers` — the rounds of a drain, from any point on.
* `hostIter_drain_eq_den` — **a tree is drained to what it means.**
-/

namespace PullIter.Tree

open Store (Frame)

variable {unit : Compiled} {options : Options} {externals : List (String × Provider)}
  {requests : List Request}

/-- A value is one of those that are held. -/
theorem Held.valueAt {arrays : List UInt64} {store : Store} {objects : List (Tree × UInt64)}
    {own : List UInt64} (h : Held arrays store objects own) {tree : Tree} {address : UInt64}
    (hm : (tree, address) ∈ objects) : ∃ own', ValueAt arrays store tree address own' := by
  induction h with
  | nil => cases hm
  | @cons _ _ _ own _ first _ _ ih =>
    rcases List.mem_cons.mp hm with heq | hm
    · cases heq
      exact ⟨own, first⟩
    · exact ih hm

/-- **The rounds of a drain**, of an iterator that answers as a trace says and is then as the rest of
the trace says. -/
theorem drainWithin_of_answers {kind : Kind} {iterator : UInt64} {At : Trace → Store → Prop}
    {Ended : Store → Prop}
    (hnext : ∀ trace store, At trace store → ∃ step,
      Exec.next unit.provided kind iterator store = .ok step ∧
        Answers (Entry.yieldLayout kind) step trace ∧
        (∀ value rest, trace = Trace.cons value rest → At rest step.store) ∧
        (trace.1 = [] → Ended step.store))
    (fuel : Nat) : ∀ {handle : Handle} {trace : Trace} {store : Store},
      handle.Drives unit kind → handle.iterator = iterator → At trace store →
      trace.1.length < fuel → ∃ last after,
        handle.drainWithin unit fuel store = .ok (trace, last, after) ∧ Ended after := by
  induction fuel with
  | zero =>
    intro handle trace store _ _ _ hlt
    exact absurd hlt (Nat.not_lt_zero _)
  | succ fuel ih =>
    intro handle trace store hd hi hat hlt
    obtain ⟨step, hruns, hanswers, hrest, hended⟩ := hnext trace store hat
    have hstep : unit.next handle.next handle.iterator store = .ok step := by
      rw [hd.next, hi, hruns]
    rw [Handle.drainWithin, Handle.step, hstep]
    obtain ⟨values, ending⟩ := trace
    cases values with
    | nil => cases ending with
      | exhausted =>
        have hclass : step.status.classify = .stop := by
          rw [show step.status = Status.stop from hanswers]
          rfl
        simp only [hclass]
        exact ⟨_, _, rfl, hended rfl⟩
      | failed code =>
        obtain ⟨rfl, hfail⟩ := hanswers
        simp only [Status.classify_of_isFailure hfail]
        exact ⟨_, _, rfl, hended rfl⟩
    | cons value values =>
      obtain ⟨hok, hstores⟩ := hanswers
      have hclass : step.status.classify = .ok := by
        rw [hok]
        rfl
      -- the writes of a step with a value cover the layout, so the buffer reads as that value
      have hread : handle.layout.read (applyWrites handle.buffer step.writes) =
          .ok (some value) := by
        rw [hd.layout]
        exact hstores.read _ (by rw [← hd.layout]; exact hd.buffer)
      simp only [hclass, hread]
      have hlast := ih (hd.applyWrites step.writes) hi (hrest value (values, ending) rfl)
        (Nat.lt_of_succ_lt_succ hlt)
      obtain ⟨last, after, hdrain, hended⟩ := hlast
      rw [hdrain]
      exact ⟨last, after, rfl, hended⟩

/-- A drain of an iterator over a tree: the values that are left, and how they end. -/
theorem drainWithin_eq_den (hr : unit.RunsRuntime) {arrays : List UInt64} {handle : Handle}
    {tree : Tree} {store : Store} {own : List UInt64} {fuel : Nat}
    (hd : handle.Drives unit tree.kind) (ha : ArraysAt arrays store)
    (h : IterAt arrays store tree handle.iterator own) (hlt : tree.den.1.length < fuel) :
    ∃ last after, handle.drainWithin unit fuel store = .ok (tree.den, last, after) := by
  have hdrain := @drainWithin_of_answers unit tree.kind handle.iterator
    (fun trace store => ∃ left, left.kind = tree.kind ∧ left.den = trace ∧ ArraysAt arrays store ∧
      IterAt arrays store left handle.iterator own) (fun _ => True) ?_ fuel handle tree.den store hd
    rfl ⟨tree, rfl, rfl, ha, h⟩ hlt
  · obtain ⟨last, after, hrun, -⟩ := hdrain
    exact ⟨last, after, hrun⟩
  · rintro trace store ⟨left, hkind, rfl, ha, h⟩
    obtain ⟨step, hstep⟩ := IterAt.advances hr left ha h
    refine ⟨step, hkind ▸ hstep.runs, hkind ▸ hstep.answers, fun value rest hden => ?_,
      fun _ => trivial⟩
    obtain ⟨next, hnext, hrest, hiter⟩ := hstep.rest value rest hden
    exact ⟨next, hnext.trans hkind, hrest, ha.frame hstep.frame fun a hm => h.not_mem ha a hm, hiter⟩

/-- **A tree is drained to what it means.**  An iterator of a value that has been made and not been
stepped yet gives the values of the tree in order and ends as the tree does.  Only an iterator over
an array needs room of its own. -/
theorem hostIter_drain_eq_den (h : unit.Finished options externals requests)
    (runtime : ∀ external ∈ externals, ∀ routine : Intrinsic, external.1 ≠ routine.name)
    {others : UInt64 → Prop} {objects : List (Tree × UInt64)} {store : Store}
    (grown : Grown unit others objects store) {tree : Tree} {root : UInt64}
    (hm : (tree, root) ∈ objects) (available : unit.isAvailable ⟨.getiter, tree.kind⟩ = true)
    (room : tree.isArray = true → store.unused + 32 ≤ UInt64.size) :
    ∃ handle before last after, unit.hostIter tree.kind root store = .ok (.ok handle, before) ∧
      handle.drain unit before = .ok (tree.den, last, after) := by
  have hr := Compiled.runsRuntime_of_finished h runtime
  obtain ⟨arrays, own, ha, hheld, -, -⟩ := (grown.kept h hr).held
  obtain ⟨own', hvalue⟩ := hheld.valueAt hm
  obtain ⟨code, hcode⟩ := Compiled.exists_code available
  obtain ⟨handle, hdrives, hhost⟩ := Compiled.hostIter_eq h (callsLinked unit tree) hcode
  obtain ⟨⟨iterator, before⟩, hget⟩ := hvalue.exists_getiter hr room
  obtain ⟨hframe, held, hiter, -⟩ := hvalue.getiter hr (grown.kept h hr).wellFormed hget
  obtain ⟨hiterator, hdrive⟩ := hdrives iterator
  have hlen : tree.den.1.length < before.rounds + 1 := Nat.lt_succ_of_le hiter.length_den_le
  obtain ⟨last, after, hdrain⟩ := drainWithin_eq_den hr hdrive
    (ha.frame hframe fun _ _ => id) (by rw [hiterator]; exact hiter) hlen
  refine ⟨handle iterator, before, last, after, ?_, hdrain⟩
  rw [hhost, hget]
  rfl

/-- A counted range, one array twice, and a generator that fails with a reserved word, in
lockstep. -/
def mixed : Tree :=
  .zip [.enumerate (.range (-1) 3) (.bool true), .array [5, 6, 7], .array [5, 6, 7],
    .generator "g" (.given [10, 20]) (some Status.stop)]

/-- What is asked for to build it and to drain it. -/
def mixedRequests : List Request :=
  [.constructor (.enumerate .range) [.ptr, .bool], .constructor mixed.kind [.ptr, .ptr, .ptr, .ptr],
    .iterator mixed.kind]

/-- The unit that answers. -/
def mixedUnit : Compiled :=
  match ((Compiler.create .debug []).requestAll mixedRequests).finish with
  | .ok (.ok unit) => unit
  | _ => ⟨(Compiler.create .debug []).decls, (Compiler.create .debug []).registry⟩

/-- The tree can be built. -/
theorem grown_mixed : ∃ others root store, Grown mixedUnit others [(mixed, root)] store := by
  have start := @Grown.start mixedUnit _ Store.wellFormed_empty
  have generator := @Grown.generator _ _ _ _ _ _ "g" (.given [10, 20]) (some Status.stop) start rfl
  have array := (@Grown.array _ _ _ _ _ _ [5, 6, 7] generator rfl).share
  have range := @Grown.range _ _ _ _ _ _ (-1) 3 array rfl
  have counted := @Grown.enumerate _ _ _ _ _ _ _ _ (.bool true) range rfl
  have zipped := @Grown.zip _ _ [_, _, _, _] [] _ _ _ counted rfl
  exact ⟨_, _, _, zipped⟩

/-- The mixed tree, drained: the generator ends first, and its reserved word is replaced. -/
theorem hostIter_drain_eq_den_mixed : ∃ others root store,
    mixedUnit.Finished .debug [] mixedRequests ∧ Grown mixedUnit others [(mixed, root)] store ∧
      mixedUnit.isAvailable ⟨.getiter, mixed.kind⟩ = true ∧ mixed.isArray = false ∧
      ∃ handle before last after, mixedUnit.hostIter mixed.kind root store = .ok (.ok handle, before) ∧
        handle.drain mixedUnit before =
          .ok (([.tuple [.pair (.i64 1) (.i64 (-1)), .i64 5, .i64 5, .i64 10],
            .tuple [.pair (.i64 2) (.i64 0), .i64 6, .i64 6, .i64 20]], .failed (-1)), last, after) := by
  obtain ⟨others, root, store, grown⟩ := grown_mixed
  have hden : mixed.den = ([.tuple [.pair (.i64 1) (.i64 (-1)), .i64 5, .i64 5, .i64 10],
      .tuple [.pair (.i64 2) (.i64 0), .i64 6, .i64 6, .i64 20]], .failed (-1)) := rfl
  refine ⟨others, root, store, rfl, grown, rfl, rfl, ?_⟩
  rw [← hden]
  refine @hostIter_drain_eq_den mixedUnit .debug [] mixedRequests rfl ?_ others _ store grown mixed
    root (List.mem_singleton_self _) rfl ?_
  · intro external hm
    cases hm
  · intro harray
    cases harray

end PullIter.Tree
