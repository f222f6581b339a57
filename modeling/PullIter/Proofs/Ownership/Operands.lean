import PullIter.Proofs.Layout.Parts
import PullIter.Proofs.Ownership.Typed

/-!
# The operands of a combinator

The arguments of a constructor are checked when it is requested: there is an address for each
source, in order, and no other argument is an address.  Each is found in the argument record.

## Main definitions

* `Arg.pointers` — the addresses among some arguments.

## Main results

* `loadArg_pointers` — **the operands of a combinator** are found in its argument record.
-/

namespace PullIter

namespace Arg

/-- The address that an argument is, if it is one. -/
def pointer? : Arg → Option UInt64
  | ptr address => some address
  | i64 _ | i32 _ | bool _ | f64 _ => none

/-- The addresses among some arguments, in order. -/
def pointers (args : List Arg) : List UInt64 := args.filterMap pointer?

/-- An argument of the kind of an address is one. -/
theorem eq_ptr_of_kind {arg : Arg} (h : arg.kind = .ptr) : ∃ address, arg = .ptr address := by
  cases arg with
  | ptr address => exact ⟨address, rfl⟩
  | i64 => cases h
  | i32 => cases h
  | bool => cases h
  | f64 => cases h

theorem pointer?_of_kind {arg : Arg} (h : arg.kind ≠ .ptr) : arg.pointer? = none := by
  cases arg with
  | ptr address => exact absurd rfl h
  | i64 => rfl
  | i32 => rfl
  | bool => rfl
  | f64 => rfl

/-- Arguments of the kind of addresses are the addresses. -/
theorem eq_map_ptr {args : List Arg} (h : ∀ arg ∈ args, arg.kind = .ptr) :
    args = (pointers args).map ptr := by
  induction args with
  | nil => rfl
  | cons arg args ih =>
    obtain ⟨address, rfl⟩ := eq_ptr_of_kind (h arg (List.mem_cons_self ..))
    have hrest := ih fun arg hm => h arg (List.mem_cons_of_mem _ hm)
    exact congrArg (ptr address :: ·) hrest

end Arg

namespace Exec

/-- The kinds of the arguments of a constructor: an address for each source, and perhaps a start. -/
theorem kinds_of_checkConstructor {kind : Kind} {args : List Scalar}
    (h : kind.checkConstructor args = .ok ()) :
    (∃ source, kind = .enumerate source ∧ (args = [.ptr] ∨ ∃ start, args = [.ptr, start] ∧
      start ≠ .ptr)) ∨ ∃ sources, kind = .zip sources ∧ args = sources.map fun _ => .ptr := by
  unfold Kind.checkConstructor at h
  split at h
  · next source =>
    refine .inl ⟨source, rfl, ?_⟩
    -- the checks are made in order: the number of arguments, the source, the start
    split at h
    · cases h
    · cases h
    · next first rest hrest =>
      split at h
      · cases h
      · next hptr =>
        have hfirst : first = .ptr := by simpa using hptr
        subst hfirst
        split at h
        · cases h
        · next hnone =>
          cases rest with
          | nil => exact .inl rfl
          | cons start more => cases more with
            | nil =>
              refine .inr ⟨start, rfl, fun heq => ?_⟩
              subst heq
              cases hnone
            | cons second more => exact (hrest start second more rfl).elim
  · next sources =>
    refine .inr ⟨sources, rfl, ?_⟩
    split at h
    · cases h
    · next hlen =>
      split at h
      · cases h
      · next hnone =>
        have hlength : args.length = sources.length := by simpa using hlen
        rw [List.find?_eq_none] at hnone
        refine List.ext_getElem (by rw [hlength, List.length_map]) fun i hi hi' => ?_
        rw [List.getElem_map]
        simpa using hnone args[i] (List.getElem_mem hi)
  · cases h
  · cases h

/-- **The operands of a combinator** are found in its argument record. -/
theorem loadArg_pointers {kind : Kind} {args : List Arg} {layout : Layout}
    (h : kind.checkConstructor (args.map Arg.kind) = .ok ())
    (hl : Entry.argsLayout? kind (args.map Arg.kind) = some layout) :
    (Arg.pointers args).length = kind.sources.length ∧
      ∀ (i : Nat) (operand : UInt64), (Arg.pointers args)[i]? = some operand →
        loadArg layout i (Arg.record layout args) = .ok operand := by
  rcases kinds_of_checkConstructor h with ⟨source, rfl, hargs⟩ | ⟨sources, rfl, hargs⟩
  · cases hl
    -- one address comes first, and no other argument is one
    obtain ⟨address, rest, rfl, hrest, hparts⟩ : ∃ address rest, args = .ptr address :: rest ∧
        Arg.pointers rest = [] ∧
        (Layout.enumerateArgParts targetPointerBytes (args.map Arg.kind)).map Prod.snd =
          args.map fun arg => Layout.ofScalar 8 arg.kind := by
      rcases hargs with hargs | ⟨start, hargs, hstart⟩
      · obtain ⟨first, rfl, hfirst⟩ := List.map_eq_singleton_iff.mp hargs
        obtain ⟨address, rfl⟩ := Arg.eq_ptr_of_kind hfirst
        exact ⟨address, [], rfl, rfl, rfl⟩
      · obtain ⟨first, rest, rfl, hfirst, hmap⟩ := List.map_eq_cons_iff.mp hargs
        obtain ⟨second, rfl, hsecond⟩ := List.map_eq_singleton_iff.mp hmap
        obtain ⟨address, rfl⟩ := Arg.eq_ptr_of_kind hfirst
        refine ⟨address, [second], rfl, ?_, rfl⟩
        rw [Arg.pointers, List.filterMap_cons, Arg.pointer?_of_kind (by rw [hsecond]; exact hstart)]
        rfl
    have hpointers : Arg.pointers (.ptr address :: rest) = [address] := by
      rw [Arg.pointers, List.filterMap_cons]
      exact congrArg (address :: ·) hrest
    rw [hpointers]
    refine ⟨rfl, fun i operand hi => ?_⟩
    cases i with
    | zero =>
      cases hi
      have harg := @loadArg_record _ (.ptr address :: rest) hparts 0 (.ptr address) rfl
      exact harg.trans (congrArg Except.ok (Layout.wordOf_toBytes address))
    | succ i => cases hi
  · cases hl
    have hkinds : ∀ arg ∈ args, arg.kind = .ptr := by
      intro arg hm
      have hkind := List.mem_map_of_mem (f := Arg.kind) hm
      rw [hargs] at hkind
      obtain ⟨source, -, heq⟩ := List.mem_map.mp hkind
      exact heq.symm
    have heq := Arg.eq_map_ptr hkinds
    have hlen := congrArg List.length hargs
    rw [List.length_map, List.length_map, heq, List.length_map] at hlen
    refine ⟨hlen, fun i operand hi => ?_⟩
    have hload := loadArg_zip (Arg.pointers args) hi
    rw [← heq] at hload
    have hmap : args.map Arg.kind = (Arg.pointers args).map fun _ => .ptr := by
      have hagain := congrArg (List.map Arg.kind) heq
      rw [List.map_map] at hagain
      exact hagain
    rw [hmap]
    exact hload

end Exec

end PullIter
