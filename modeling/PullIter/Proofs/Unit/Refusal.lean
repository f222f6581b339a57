import PullIter.Entry.Basic
import Mathlib.Logic.Basic

/-!
# What a request is refused for

Before anything is declared, the kind of a request is checked, and so are the arguments of a
constructor.  Both checks run through a tree or a list and stop at the first fault.

## Main definitions

* `Kind.externals` — the external leaves of a kind, from left to right.
* `Kind.Refuses` — the arguments that a constructor does not take, with the complaint.

## Main results

* `Kind.check_eq_error_iff` — the first iterable that makes no iterator is the complaint.
* `Kind.checkConstructor_eq_error_iff` — which arguments are refused, and why.
-/

namespace PullIter

namespace Kind

mutual

/-- The external leaves of a kind, from left to right. -/
def externals : Kind → List External
  | .enumerate source => externals source
  | .zip sources => externalsList sources
  | .generator .. => []
  | .external ext => [ext]

/-- The external leaves of some kinds, from left to right. -/
def externalsList : List Kind → List External
  | [] => []
  | kind :: kinds => externals kind ++ externalsList kinds

end

/-- The complaint about the first of some external leaves whose `getiter` makes no iterator. -/
def complaint? (leaves : List External) : Option Error :=
  (leaves.find? fun ext => !ext.made.isIterator).map fun ext =>
    .typeMismatch "getiter result" "iterator" ext.made.name

theorem complaint?_append (leaves more : List External) :
    complaint? (leaves ++ more) = (complaint? leaves).or (complaint? more) := by
  rw [complaint?, complaint?, complaint?, List.find?_append, Option.map_or]

theorem check_external (ext : External) :
    ext.check = match complaint? [ext] with
      | some e => .error e
      | none => .ok () := by
  cases ext with
  | iterator => rfl
  | iterable name yields getiter made =>
    rw [External.check]
    cases hm : made.isIterator <;> simp [complaint?, External.made, hm]

mutual

/-- A kind is refused for the first of its leaves that makes no iterator. -/
theorem check_eq : ∀ kind : Kind, kind.check = match complaint? kind.externals with
    | some e => .error e
    | none => .ok ()
  | .enumerate source => by rw [check, check_eq source, externals]
  | .zip sources => by rw [check, checkList_eq sources, externals]
  | .generator .. => rfl
  | .external ext => by rw [check, check_external, externals]

theorem checkList_eq : ∀ kinds : List Kind,
    checkList kinds = match complaint? (externalsList kinds) with
      | some e => .error e
      | none => .ok ()
  | [] => rfl
  | kind :: kinds => by
    rw [checkList, check_eq kind, checkList_eq kinds, externalsList, complaint?_append]
    cases complaint? kind.externals with
    | none => rfl
    | some e => rfl

end

/-- **An iterable has to make an iterator.**  The first of the leaves that does not is named. -/
theorem check_eq_error_iff {kind : Kind} {e : Error} : kind.check = .error e ↔
    ∃ before ext after, kind.externals = before ++ ext :: after ∧
      (∀ other ∈ before, other.made.isIterator = true) ∧ ext.made.isIterator = false ∧
      e = .typeMismatch "getiter result" "iterator" ext.made.name := by
  have hfind : kind.check = .error e ↔ complaint? kind.externals = some e := by
    rw [check_eq]
    cases complaint? kind.externals <;> simp
  rw [hfind, complaint?]
  constructor
  · intro h
    obtain ⟨ext, hext, rfl⟩ := Option.map_eq_some_iff.mp h
    obtain ⟨hbad, before, after, heq, hbefore⟩ := List.find?_eq_some_iff_append.mp hext
    exact ⟨before, ext, after, heq, by simpa using hbefore, by simpa using hbad, rfl⟩
  · rintro ⟨before, ext, after, heq, hbefore, hbad, rfl⟩
    refine Option.map_eq_some_iff.mpr ⟨ext, ?_, rfl⟩
    refine List.find?_eq_some_iff_append.mpr ⟨by simp [hbad], before, after, heq, ?_⟩
    simpa using hbefore

theorem check_eq_ok_iff {kind : Kind} :
    kind.check = .ok () ↔ ∀ ext ∈ kind.externals, ext.made.isIterator = true := by
  have hnone : kind.check = .ok () ↔ complaint? kind.externals = none := by
    rw [check_eq]
    cases complaint? kind.externals <;> simp
  rw [hnone, complaint?, Option.map_eq_none_iff, List.find?_eq_none]
  simp

/-- The constructor of a kind does not take arguments of some kinds, with the complaint. -/
inductive Refuses : Kind → List Scalar → Error → Prop
  | generator (name : String) (yields : ValueType) (resume : String) (args : List Scalar) :
      Refuses (.generator name yields resume) args
        (.unsupported "constructor" (some (Kind.generator name yields resume).name))
  | external (ext : External) (args : List Scalar) :
      Refuses (.external ext) args (.unsupported "constructor" (some (Kind.external ext).name))
  | noSource (source : Kind) :
      Refuses (.enumerate source) [] (.argumentCount (Kind.enumerate source).name 1 0)
  | tooMany (source : Kind) {args : List Scalar} (many : 2 < args.length) :
      Refuses (.enumerate source) args
        (.argumentCount (Kind.enumerate source).name 2 args.length)
  | source (source : Kind) {arg : Scalar} {start : List Scalar} (few : start.length ≤ 1)
      (bad : arg ≠ .ptr) :
      Refuses (.enumerate source) (arg :: start) (.typeMismatch "enumerate source" "ptr" arg.name)
  | start (source : Kind) {arg : Scalar} (bad : arg ∉ [Scalar.bool, .i32, .i64]) :
      Refuses (.enumerate source) [.ptr, arg]
        (.typeMismatch "enumerate start" "integer" arg.name)
  | count {sources : List Kind} {args : List Scalar} (other : args.length ≠ sources.length) :
      Refuses (.zip sources) args
        (.argumentCount (Kind.zip sources).name sources.length args.length)
  | operand {sources : List Kind} {before after : List Scalar} {arg : Scalar}
      (count : (before ++ arg :: after).length = sources.length)
      (first : ∀ other ∈ before, other = .ptr) (bad : arg ≠ .ptr) :
      Refuses (.zip sources) (before ++ arg :: after)
        (.typeMismatch "zip source" "ptr" arg.name)

theorem isInteger_iff (arg : Scalar) : arg.isInteger = true ↔ arg ∈ [Scalar.bool, .i32, .i64] := by
  cases arg <;> decide

theorem checkConstructor_of_refuses {kind : Kind} {args : List Scalar} {e : Error}
    (h : kind.Refuses args e) : kind.checkConstructor args = .error e := by
  cases h with
  | generator => rfl
  | external => rfl
  | noSource => rfl
  | tooMany source many =>
    match args, many with
    | _ :: _ :: _ :: _, _ => rfl
  | source source few bad =>
    rename_i arg start
    match start, few with
    | [], _ => simp [checkConstructor, bad, Scalar.name]
    | [_], _ => simp [checkConstructor, bad, Scalar.name]
  | start source bad =>
    rename_i arg
    have hbad : arg.isInteger = false := by
      rw [← Bool.not_eq_true, isInteger_iff]
      exact bad
    simp [checkConstructor, hbad]
  | count other => simp [checkConstructor, other]
  | operand count first bad =>
    rename_i sources before after arg
    have hfind : (before ++ arg :: after).find? (fun arg => decide (arg ≠ .ptr)) = some arg :=
      List.find?_eq_some_iff_append.mpr
        ⟨by simpa using bad, before, after, rfl, by simpa using first⟩
    rw [checkConstructor, if_neg (not_not_intro count), hfind]
    rfl

theorem refuses_enumerate {source : Kind} {args : List Scalar} {e : Error}
    (h : checkConstructor (.enumerate source) args = .error e) :
    (Kind.enumerate source).Refuses args e := by
  match args, h with
  | [], h => cases h; exact .noSource source
  | _ :: _ :: _ :: rest, h =>
    cases h
    exact .tooMany source (by simp only [List.length_cons]; omega)
  | [arg], h =>
    by_cases harg : arg = .ptr
    · subst harg; cases h
    · simp only [checkConstructor, ne_eq, harg, not_false_eq_true, if_true] at h
      cases h
      exact .source source (Nat.zero_le 1) harg
  | [arg, start], h =>
    by_cases harg : arg = .ptr
    · subst harg
      cases hs : start.isInteger with
      | true => simp [checkConstructor, hs] at h
      | false =>
        simp only [checkConstructor, ne_eq, not_true_eq_false, if_false, List.find?_cons, hs,
          Bool.not_false] at h
        cases h
        refine .start source fun hm => ?_
        rw [(isInteger_iff start).mpr hm] at hs
        cases hs
    · simp only [checkConstructor, ne_eq, harg, not_false_eq_true, if_true] at h
      cases h
      exact .source source (Nat.le_refl 1) harg

theorem refuses_zip {sources : List Kind} {args : List Scalar} {e : Error}
    (h : checkConstructor (.zip sources) args = .error e) : (Kind.zip sources).Refuses args e := by
  rw [checkConstructor] at h
  split at h
  · next hcount => cases h; exact .count hcount
  · next hcount =>
    split at h
    · next bad hfind =>
      cases h
      obtain ⟨hbad, before, after, rfl, hbefore⟩ := List.find?_eq_some_iff_append.mp hfind
      exact .operand (not_not.mp hcount) (by simpa using hbefore) (by simpa using hbad)
    · cases h

/-- **The arguments of a constructor**: which are refused, and why. -/
theorem checkConstructor_eq_error_iff {kind : Kind} {args : List Scalar} {e : Error} :
    kind.checkConstructor args = .error e ↔ kind.Refuses args e := by
  refine ⟨fun h => ?_, checkConstructor_of_refuses⟩
  cases kind with
  | enumerate source => exact refuses_enumerate h
  | zip sources => exact refuses_zip h
  | generator name yields resume => cases h; exact .generator name yields resume args
  | external ext => cases h; exact .external ext args

end Kind

end PullIter
