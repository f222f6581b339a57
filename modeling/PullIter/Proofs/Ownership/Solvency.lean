import PullIter.Proofs.Ownership.Ledger

/-!
# Whatever is owed can be paid

An iterator is owed from when it was made until its owner is dropped.  As long as the kinds in use
are orderly it stays where it is: what advances iterators ends none, and what is dropped ends what it
owes itself.  So it is there when it has to be ended, and since no two objects owe the same one, it
is ended once.

## Main definitions

* `Solvent` — everything that is owed is there, and no two objects owe the same.

## Main results

* `Solvent.run` — one more run of an object.
* `Solvent.opens`, `.moves`, `.closes`, `.passes` — an object that is made, used, dropped, or a loop.
* `Solvent.exists_releaseAll` — **whatever is owed can be paid.**
-/

namespace PullIter

/-- Everything that the objects owe is there and can be ended, and no two of them owe the same. -/
structure Solvent (unit : Compiled) (accounts : List Account) (store : Store) : Prop where
  ready : ∀ account ∈ accounts, ∀ entry ∈ account.owed unit, Provider.Ready entry store
  apart : ((accounts.flatMap (Account.owed unit)).map Prod.snd).Nodup

variable {unit : Compiled} {store after : Store} {accounts : List Account}

/-- What is ready was made before what is new. -/
theorem Provider.Ready.lt {entry : Provider × UInt64} (h : Provider.Ready entry store)
    (hwf : store.WellFormed) : entry.2.toNat < store.unused := by
  obtain ⟨cell, hc, -⟩ := h
  exact (hwf.bounds hc).2

namespace Solvent

theorem nil (unit : Compiled) (store : Store) : Solvent unit [] store :=
  ⟨fun _ hm => absurd hm List.not_mem_nil, .nil⟩

theorem perm {accounts' : List Account} (h : Solvent unit accounts store)
    (hp : accounts.Perm accounts') : Solvent unit accounts' store where
  ready account hm := h.ready account (hp.mem_iff.mpr hm)
  apart := ((hp.flatMap_right _).map _).nodup_iff.mp h.apart

/-- Others leave alone what is owed. -/
theorem elsewhere (h : Solvent unit accounts store) {own : UInt64 → Prop}
    (frame : Store.Frame own store after)
    (foreign : ∀ a, own a → ∀ account ∈ accounts, ∀ entry ∈ account.owed unit, entry.2 ≠ a) :
    Solvent unit accounts after where
  ready account hm entry he := by
    obtain ⟨cell, hc, hundoes⟩ := h.ready account hm entry he
    obtain ⟨cell', hc', halike⟩ := frame.kept (fun ho => foreign _ ho account hm entry he rfl) hc
    exact ⟨cell', hc', by rw [halike.isScript_eq]; exact hundoes⟩
  apart := h.apart

/-- What one object owes, no other does. -/
theorem ne_of_append {old : List Account} (h : Solvent unit (old ++ accounts) store)
    {account other : Account} (hm : account ∈ old) (ho : other ∈ accounts)
    {entry entry' : Provider × UInt64} (he : entry ∈ account.owed unit)
    (he' : entry' ∈ other.owed unit) : entry.2 ≠ entry'.2 := by
  have hapart := h.apart
  rw [List.flatMap_append, List.map_append, List.nodup_append] at hapart
  exact hapart.2.2 _ (List.mem_map_of_mem (List.mem_flatMap_of_mem hm he)) _
    (List.mem_map_of_mem (List.mem_flatMap_of_mem ho he'))

/-- **One more run of an object**, which may have run before.  What it ends is new, or owed by itself,
or no iterator; and what it owes it owed before, or it was made in this run. -/
theorem run {old : List Account} {new : Account} {calls : List Call}
    (h : Solvent unit (old ++ accounts) store) (hwf : store.WellFormed)
    (hc : Store.Custody calls store after)
    (hended : ∀ call ∈ calls, ∀ a, call.ended? = some a → new.owed unit = [] ∧
      ∀ account ∈ accounts, ∀ entry ∈ account.owed unit, entry.2 ≠ a)
    (hnew : (new.owed unit).Sublist (old.flatMap (Account.owed unit)) ∨
      Compiled.Backed (new.owed unit) calls) :
    Solvent unit (new :: accounts) after := by
  have hothers : ∀ account ∈ accounts, ∀ entry ∈ account.owed unit, ∀ call ∈ calls,
      call.ended? ≠ some entry.2 := fun account hm entry he call hcall heq =>
    (hended call hcall _ heq).2 account hm entry he rfl
  have hself : ∀ entry ∈ new.owed unit, ∀ call ∈ calls, call.ended? ≠ some entry.2 := by
    intro entry he call hcall heq
    rw [(hended call hcall _ heq).1] at he
    cases he
  have hready : ∀ account ∈ accounts, ∀ entry ∈ account.owed unit, Provider.Ready entry store :=
    fun account hm => h.ready account (List.mem_append_right _ hm)
  have hapart := h.apart
  rw [List.flatMap_append, List.map_append, List.nodup_append] at hapart
  constructor
  · refine List.forall_mem_cons.mpr ⟨fun entry he => ?_, fun account hm entry he =>
      (hready account hm entry he).custody hc (hothers account hm entry he)⟩
    rcases hnew with hsub | hbacked
    · obtain ⟨account, hm, hold⟩ := List.mem_flatMap.mp (hsub.subset he)
      exact (h.ready account (List.mem_append_left _ hm) entry hold).custody hc (hself entry he)
    · exact hbacked.ready hc hself entry he
  · rw [List.flatMap_cons, List.map_append, List.nodup_append]
    rcases hnew with hsub | hbacked
    · have hsnd := hsub.map Prod.snd
      exact ⟨hsnd.nodup hapart.1, hapart.2.1, fun first hfirst => hapart.2.2 first
        (hsnd.subset hfirst)⟩
    · refine ⟨hbacked.sublist.nodup hc.nodup, hapart.2.1, fun first hfirst second hsecond heq => ?_⟩
      -- what was made in this run is new
      have hnew := (hc.mem_made (hbacked.sublist.subset hfirst)).1
      obtain ⟨entry, he, rfl⟩ := List.mem_map.mp hsecond
      obtain ⟨account, hm, he⟩ := List.mem_flatMap.mp he
      have hlt := (hready account hm entry he).lt hwf
      rw [heq] at hnew
      omega

variable {old new : Account} {calls : List Call}

/-- An object that is made, and owes what was made for it. -/
theorem opens (h : Solvent unit accounts store) (hwf : store.WellFormed)
    (hc : Store.Custody calls store after) (hended : ∀ call ∈ calls, call.ended? = none)
    (hbacked : Compiled.Backed (new.owed unit) calls) : Solvent unit (new :: accounts) after := by
  refine @run _ _ _ _ [] _ _ h hwf hc (fun call hm a heq => ?_) (.inr hbacked)
  rw [hended call hm] at heq
  cases heq

/-- An object that is used, and owes what it owed before. -/
theorem moves (h : Solvent unit (old :: accounts) store) (hwf : store.WellFormed)
    (hc : Store.Custody calls store after) (hended : ∀ call ∈ calls, call.ended? = none)
    (howed : new.owed unit = old.owed unit) : Solvent unit (new :: accounts) after := by
  have hold : Solvent unit ([old] ++ accounts) store := h
  refine hold.run hwf hc (fun call hm a heq => ?_) (.inl ?_)
  · rw [hended call hm] at heq
    cases heq
  · rw [List.flatMap_singleton, howed]

/-- An object that is dropped, and ends what it owed. -/
theorem closes (h : Solvent unit (old :: accounts) store) (hwf : store.WellFormed)
    (hc : Store.Custody calls store after)
    (hended : ∀ call ∈ calls, ∀ a, call.ended? = some a → (∃ entry ∈ old.owed unit, entry.2 = a) ∨
      ∀ account ∈ accounts, ∀ entry ∈ account.owed unit, entry.2 ≠ a)
    (howed : new.owed unit = []) : Solvent unit (new :: accounts) after := by
  have hold : Solvent unit ([old] ++ accounts) store := h
  refine hold.run hwf hc (fun call hcall a heq => ⟨howed, ?_⟩) (.inl ?_)
  · rcases hended call hcall a heq with ⟨own, hown, rfl⟩ | hother
    · intro account hm entry he
      exact (hold.ne_of_append (List.mem_singleton_self _) hm hown he).symm
    · exact hother
  · rw [howed]
    exact List.nil_sublist _

/-- A loop, which ends what it made itself. -/
theorem passes (h : Solvent unit accounts store) (hwf : store.WellFormed)
    (hc : Store.Custody calls store after)
    (hended : ∀ call ∈ calls, ∀ a, call.ended? = some a → store.unused ≤ a.toNat)
    (howed : new.owed unit = []) : Solvent unit (new :: accounts) after := by
  refine @run _ _ _ _ [] _ _ h hwf hc (fun call hcall a heq => ⟨howed, ?_⟩) (.inl ?_)
  · rintro account hm entry he rfl
    have hlt := (h.ready account hm entry he).lt hwf
    have hle := hended call hcall _ heq
    omega
  · rw [howed]
    exact List.nil_sublist _

/-- **Whatever is owed can be paid.** -/
theorem exists_releaseAll (h : Solvent unit accounts store) {account : Account}
    (hm : account ∈ accounts) : ∃ after, Provider.releaseAll (account.owed unit) store = .ok after := by
  refine Provider.exists_releaseAll (h.ready account hm) ?_
  obtain ⟨before, behind, rfl⟩ := List.append_of_mem hm
  have hapart := h.apart
  rw [List.flatMap_append, List.flatMap_cons, List.map_append, List.map_append] at hapart
  exact hapart.of_append_right.of_append_left

end Solvent

end PullIter
