import PullIter.Proofs.Store.Frame
import PullIter.Proofs.Tree.Denotation
import PullIter.Layout.Standard

/-!
# A tree in the store

The objects of a tree are in the store: an iterator over what is left of it, or a value that has
not been stepped yet.  Each object belongs to one tree, but for the arrays, which are only looked
at.

## Main definitions

* `IterAt`, `ItersAt` — an iterator over what is left of a tree, and the objects it works on.
* `ValueAt` — a value that stands for a tree.
* `Held` — some values that have no object in common.

## Main results

* `IterAt.frame`, `ValueAt.frame`, `Held.frame` — whoever works on other objects leaves a tree
  alone.
* `IterAt.length_den_le` — no loop over a tree has more rounds than the store allows.
-/

namespace PullIter.Tree

open Store (Frame)

/-- Some addresses are those of arrays. -/
def ArraysAt (arrays : List UInt64) (store : Store) : Prop :=
  ∀ address ∈ arrays, ∃ elements calls, store.get? address = some (.array elements calls)

mutual

/-- An iterator over what is left of a tree, and the objects that advancing it works on. -/
inductive IterAt (arrays : List UInt64) (store : Store) : Tree → UInt64 → List UInt64 → Prop
  | array {iterator : UInt64} {block : Block} {words : Words} {elements left : List Int64}
      {calls : Nat} (cell : store.get? iterator = some (.block block words))
      (source : words.peek 0 ∈ arrays)
      (found : store.get? (words.peek 0) = some (.array elements calls))
      (short : elements.length < UInt64.size)
      (rest : left = elements.drop (words.peek 1).toNat) :
      IterAt arrays store (.array left) iterator [iterator]
  | range {iterator : UInt64} {block : Block} {words : Words} {start stop : Int64}
      (cell : store.get? iterator = some (.block block words))
      (first : (words.peek 0).toInt64 = start) (last : (words.peek 1).toInt64 = stop) :
      IterAt arrays store (.range start stop) iterator [iterator]
  | generator {handle : UInt64} {name : String} {yields : Yields} {failure : Option Int32}
      (cell : store.get? handle = some (.generator (.start yields failure))) :
      IterAt arrays store (.generator name yields failure) handle [handle]
  | enumerate {state : UInt64} {block : Block} {words : Words} {source : Tree} {start : Start}
      {own : List UInt64} (cell : store.get? state = some (.block block words))
      (count : (words.peek Layout.countIndex).toInt64 = start.count)
      (inner : IterAt arrays store source (words.peek Layout.sourceIndex) own)
      (apart : state ∉ own) : IterAt arrays store (.enumerate source start) state (state :: own)
  | zip {state : UInt64} {block : Block} {words : Words} {sources : List Tree}
      {own : List UInt64} (cell : store.get? state = some (.block block words))
      (inner : ItersAt arrays store sources words 0 own)
      (apart : state ∉ own) : IterAt arrays store (.zip sources) state (state :: own)

/-- Iterators over what is left of some trees, whose addresses are in words from an index on.  No
two of them work on the same object. -/
inductive ItersAt (arrays : List UInt64) (store : Store) :
    List Tree → Words → Nat → List UInt64 → Prop
  | nil {words : Words} {index : Nat} : ItersAt arrays store [] words index []
  | cons {tree : Tree} {trees : List Tree} {words : Words} {index : Nat} {own own' : List UInt64}
      (first : IterAt arrays store tree (words.peek index) own)
      (rest : ItersAt arrays store trees words (index + 1) own') (apart : ∀ a ∈ own, a ∉ own') :
      ItersAt arrays store (tree :: trees) words index (own ++ own')

end

/-- A value that stands for a tree: an array, or an iterator that has not been stepped. -/
inductive ValueAt (arrays : List UInt64) (store : Store) : Tree → UInt64 → List UInt64 → Prop
  | array {address : UInt64} {elements : List Int64} {calls : Nat} (source : address ∈ arrays)
      (found : store.get? address = some (.array elements calls))
      (short : elements.length < UInt64.size) : ValueAt arrays store (.array elements) address []
  | iterator {tree : Tree} {address : UInt64} {own : List UInt64}
      (held : IterAt arrays store tree address own) (other : tree.isArray = false) :
      ValueAt arrays store tree address own

/-- Some values that have no object in common. -/
inductive Held (arrays : List UInt64) (store : Store) : List (Tree × UInt64) → List UInt64 → Prop
  | nil : Held arrays store [] []
  | cons {tree : Tree} {address : UInt64} {objects : List (Tree × UInt64)} {own own' : List UInt64}
      (first : ValueAt arrays store tree address own) (rest : Held arrays store objects own')
      (apart : ∀ a ∈ own, a ∉ own') : Held arrays store ((tree, address) :: objects) (own ++ own')

variable {arrays : List UInt64} {store after : Store} {theirs : UInt64 → Prop}

/-! ### Work on other objects -/

theorem ArraysAt.frame (h : ArraysAt arrays store) (hf : Frame theirs store after)
    (ha : ∀ a ∈ arrays, ¬theirs a) : ArraysAt arrays after := by
  intro address hm
  obtain ⟨elements, calls, hg⟩ := h address hm
  obtain ⟨calls', hg'⟩ := hf.array (ha address hm) hg
  exact ⟨elements, calls', hg'⟩

/-- A block is no array. -/
theorem ArraysAt.not_mem_of_block (h : ArraysAt arrays store) {state : UInt64} {block : Block}
    {words : Words} (hcell : store.get? state = some (.block block words)) : state ∉ arrays := by
  intro hm
  obtain ⟨elements, calls, hget⟩ := h state hm
  cases hcell.symm.trans hget

mutual

/-- **Whoever works on other objects** leaves an iterator alone. -/
theorem IterAt.frame (hf : Frame theirs store after) (ha : ∀ a ∈ arrays, ¬theirs a) :
    ∀ {tree : Tree} {iterator : UInt64} {own : List UInt64},
      IterAt arrays store tree iterator own → (∀ a ∈ own, ¬theirs a) →
      IterAt arrays after tree iterator own
  | _, _, _, .array cell source found short rest, ho => by
    obtain ⟨calls', hg⟩ := hf.array (ha _ source) found
    exact .array (hf.block (ho _ (List.mem_singleton_self _)) cell) source hg short rest
  | _, _, _, .range cell first last, ho =>
    .range (hf.block (ho _ (List.mem_singleton_self _)) cell) first last
  | _, _, _, .generator cell, ho =>
    .generator (hf.generator (ho _ (List.mem_singleton_self _)) cell)
  | _, _, _, .enumerate cell count inner apart, ho =>
    .enumerate (hf.block (ho _ (List.mem_cons_self ..)) cell) count
      (IterAt.frame hf ha inner fun a hm => ho a (List.mem_cons_of_mem _ hm)) apart
  | _, _, _, .zip cell inner apart, ho =>
    .zip (hf.block (ho _ (List.mem_cons_self ..)) cell)
      (ItersAt.frame hf ha inner fun a hm => ho a (List.mem_cons_of_mem _ hm)) apart

theorem ItersAt.frame (hf : Frame theirs store after) (ha : ∀ a ∈ arrays, ¬theirs a) :
    ∀ {trees : List Tree} {words : Words} {index : Nat} {own : List UInt64},
      ItersAt arrays store trees words index own → (∀ a ∈ own, ¬theirs a) →
      ItersAt arrays after trees words index own
  | _, _, _, _, .nil, _ => .nil
  | _, _, _, _, .cons first rest apart, ho =>
    .cons (IterAt.frame hf ha first fun a hm => ho a (List.mem_append_left _ hm))
      (ItersAt.frame hf ha rest fun a hm => ho a (List.mem_append_right _ hm)) apart

end

/-- Whoever works on other objects leaves a value alone. -/
theorem ValueAt.frame (hf : Frame theirs store after) (ha : ∀ a ∈ arrays, ¬theirs a) {tree : Tree}
    {address : UInt64} {own : List UInt64} (h : ValueAt arrays store tree address own)
    (ho : ∀ a ∈ own, ¬theirs a) : ValueAt arrays after tree address own := by
  cases h with
  | array source found short =>
    obtain ⟨calls', hg⟩ := hf.array (ha _ source) found
    exact .array source hg short
  | iterator held other => exact .iterator (held.frame hf ha ho) other

theorem Held.frame (hf : Frame theirs store after) (ha : ∀ a ∈ arrays, ¬theirs a)
    {objects : List (Tree × UInt64)} {own : List UInt64} (h : Held arrays store objects own)
    (ho : ∀ a ∈ own, ¬theirs a) : Held arrays after objects own := by
  induction h with
  | nil => exact .nil
  | cons first rest apart ih =>
    exact .cons (first.frame hf ha fun a hm => ho a (List.mem_append_left _ hm))
      (ih fun a hm => ho a (List.mem_append_right _ hm)) apart

/-! ### More arrays -/

mutual

theorem IterAt.mono {more : List UInt64} (hsub : ∀ a ∈ arrays, a ∈ more) :
    ∀ {tree : Tree} {iterator : UInt64} {own : List UInt64},
      IterAt arrays store tree iterator own → IterAt more store tree iterator own
  | _, _, _, .array cell source found short rest => .array cell (hsub _ source) found short rest
  | _, _, _, .range cell first last => .range cell first last
  | _, _, _, .generator cell => .generator cell
  | _, _, _, .enumerate cell count inner apart =>
    .enumerate cell count (IterAt.mono hsub inner) apart
  | _, _, _, .zip cell inner apart => .zip cell (ItersAt.mono hsub inner) apart

theorem ItersAt.mono {more : List UInt64} (hsub : ∀ a ∈ arrays, a ∈ more) :
    ∀ {trees : List Tree} {words : Words} {index : Nat} {own : List UInt64},
      ItersAt arrays store trees words index own → ItersAt more store trees words index own
  | _, _, _, _, .nil => .nil
  | _, _, _, _, .cons first rest apart =>
    .cons (IterAt.mono hsub first) (ItersAt.mono hsub rest) apart

end

theorem Held.mono {more : List UInt64} (hsub : ∀ a ∈ arrays, a ∈ more)
    {objects : List (Tree × UInt64)} {own : List UInt64} (h : Held arrays store objects own) :
    Held more store objects own := by
  induction h with
  | nil => exact .nil
  | cons first rest apart ih =>
    refine .cons ?_ ih apart
    cases first with
    | array source found short => exact .array (hsub _ source) found short
    | iterator held other => exact .iterator (held.mono hsub) other

/-! ### Regrouping -/

/-- The order of values does not matter. -/
theorem Held.perm {objects objects' : List (Tree × UInt64)} {own : List UInt64}
    (h : Held arrays store objects own) (hp : objects.Perm objects') :
    ∃ own', Held arrays store objects' own' ∧ ∀ a, a ∈ own' ↔ a ∈ own := by
  induction hp generalizing own with
  | nil => exact ⟨own, h, fun _ => Iff.rfl⟩
  | cons _ _ ih =>
    cases h with
    | cons first rest apart =>
      obtain ⟨own', hrest, hmem⟩ := ih rest
      refine ⟨_, .cons first hrest fun a hm hm' => apart a hm ((hmem a).mp hm'), fun a => ?_⟩
      simp only [List.mem_append, hmem]
  | swap =>
    cases h with
    | cons first rest apart =>
      cases rest with
      | cons second rest apart' =>
        refine ⟨_, .cons second (.cons first rest fun a hm hm' => ?_) fun a hm hm' => ?_,
          fun a => ?_⟩
        · exact apart a hm (List.mem_append_right _ hm')
        · rcases List.mem_append.mp hm' with hm' | hm'
          · exact apart a hm' (List.mem_append_left _ hm)
          · exact apart' a hm hm'
        · simp only [List.mem_append]
          exact or_left_comm
  | trans _ _ ih ih' =>
    obtain ⟨mid, hmid, hmem⟩ := ih h
    obtain ⟨own', hlast, hmem'⟩ := ih' hmid
    exact ⟨own', hlast, fun a => (hmem' a).trans (hmem a)⟩

/-- Some of the values can be told apart from the others. -/
theorem Held.split {objects others : List (Tree × UInt64)} :
    ∀ {own : List UInt64}, Held arrays store (objects ++ others) own →
      ∃ first last, Held arrays store objects first ∧ Held arrays store others last ∧
        (∀ a ∈ first, a ∉ last) ∧ ∀ a, a ∈ own ↔ a ∈ first ∨ a ∈ last := by
  induction objects with
  | nil =>
    intro own h
    refine ⟨[], own, .nil, h, fun a hm => ?_, fun a => ?_⟩
    · cases hm
    · simp only [List.not_mem_nil, false_or]
  | cons object objects ih =>
    intro own h
    cases h with
    | @cons _ _ _ own own' first rest apart =>
      obtain ⟨mid, last, hmid, hlast, hdisjoint, hmem⟩ := ih rest
      refine ⟨own ++ mid, last, .cons first hmid fun a hm hm' => ?_, hlast, fun a hm hm' => ?_,
        fun a => ?_⟩
      · exact apart a hm ((hmem a).mpr (.inl hm'))
      · rcases List.mem_append.mp hm with hm | hm
        · exact apart a hm ((hmem a).mpr (.inr hm'))
        · exact hdisjoint a hm hm'
      · simp only [List.mem_append, hmem, or_assoc]

/-! ### The objects of a tree -/

mutual

/-- The objects of an iterator are live, and none of them is an array. -/
theorem IterAt.live : ∀ {tree : Tree} {iterator : UInt64} {own : List UInt64},
    IterAt arrays store tree iterator own →
    ∀ a ∈ own, (store.get? a).isSome ∧ ∀ elements calls, store.get? a ≠ some (.array elements calls)
  | _, _, _, .array cell .., a, hm => by
    rw [List.mem_singleton.mp hm, cell]
    exact ⟨rfl, fun _ _ => nofun⟩
  | _, _, _, .range cell .., a, hm => by
    rw [List.mem_singleton.mp hm, cell]
    exact ⟨rfl, fun _ _ => nofun⟩
  | _, _, _, .generator cell, a, hm => by
    rw [List.mem_singleton.mp hm, cell]
    exact ⟨rfl, fun _ _ => nofun⟩
  | _, _, _, .enumerate cell _ inner _, a, hm => by
    rcases List.mem_cons.mp hm with rfl | hm
    · rw [cell]
      exact ⟨rfl, fun _ _ => nofun⟩
    · exact inner.live a hm
  | _, _, _, .zip cell inner _, a, hm => by
    rcases List.mem_cons.mp hm with rfl | hm
    · rw [cell]
      exact ⟨rfl, fun _ _ => nofun⟩
    · exact inner.live a hm

theorem ItersAt.live : ∀ {trees : List Tree} {words : Words} {index : Nat} {own : List UInt64},
    ItersAt arrays store trees words index own →
    ∀ a ∈ own, (store.get? a).isSome ∧ ∀ elements calls, store.get? a ≠ some (.array elements calls)
  | _, _, _, _, .nil, a, hm => by simp at hm
  | _, _, _, _, .cons first rest _, a, hm => by
    rcases List.mem_append.mp hm with hm | hm
    · exact first.live a hm
    · exact rest.live a hm

end

theorem ValueAt.live {tree : Tree} {address : UInt64} {own : List UInt64}
    (h : ValueAt arrays store tree address own) :
    ∀ a ∈ own, (store.get? a).isSome ∧
      ∀ elements calls, store.get? a ≠ some (.array elements calls) := by
  cases h with
  | array => intro a hm; simp at hm
  | iterator held => exact held.live

theorem Held.live {objects : List (Tree × UInt64)} {own : List UInt64}
    (h : Held arrays store objects own) :
    ∀ a ∈ own, (store.get? a).isSome ∧
      ∀ elements calls, store.get? a ≠ some (.array elements calls) := by
  induction h with
  | nil => intro a hm; simp at hm
  | cons first rest _ ih =>
    intro a hm
    rcases List.mem_append.mp hm with hm | hm
    · exact first.live a hm
    · exact ih a hm

/-- An array is no object of an iterator. -/
theorem IterAt.not_mem {tree : Tree} {iterator : UInt64} {own : List UInt64}
    (h : IterAt arrays store tree iterator own) (ha : ArraysAt arrays store) :
    ∀ a ∈ arrays, a ∉ own := by
  intro a harray hm
  obtain ⟨elements, calls, hg⟩ := ha a harray
  exact (h.live a hm).2 elements calls hg

theorem ItersAt.not_mem {trees : List Tree} {words : Words} {index : Nat} {own : List UInt64}
    (h : ItersAt arrays store trees words index own) (ha : ArraysAt arrays store) :
    ∀ a ∈ arrays, a ∉ own := by
  intro a harray hm
  obtain ⟨elements, calls, hg⟩ := ha a harray
  exact (h.live a hm).2 elements calls hg

/-! ### Rounds -/

theorem values_le_rounds {store : Store} {address : UInt64} {cell : Cell}
    (h : store.get? address = some cell) : cell.values ≤ store.rounds := by
  have hle : ∀ cells : List (UInt64 × Cell), cells.lookup address = some cell →
      cell.values ≤ cells.foldr (fun entry total => entry.2.values + total) 0 := by
    intro cells
    induction cells with
    | nil => intro hl; cases hl
    | cons entry rest ih =>
      intro hl
      rw [List.foldr_cons]
      rw [List.lookup_cons] at hl
      split at hl
      · cases hl
        omega
      · have hrest := ih hl
        omega
  have hcells := hle store.cells h
  rw [Store.rounds]
  omega

/-- **No loop over a tree** has more rounds than the store allows. -/
theorem IterAt.length_den_le : ∀ {tree : Tree} {iterator : UInt64} {own : List UInt64},
    IterAt arrays store tree iterator own → tree.den.1.length ≤ store.rounds
  | .array left, _, _, .array _ _ found _ rest => by
    have hvalues := values_le_rounds found
    rw [den, List.length_map, rest, List.length_drop]
    rw [Cell.values] at hvalues
    omega
  | .range start stop, _, _, .range .. => by
    have hlt := length_rangeValues_lt start stop
    rw [den, List.length_map, Store.rounds]
    omega
  | .generator _ yields _, _, _, .generator cell => by
    have hvalues : yields.count ≤ store.rounds := values_le_rounds cell
    rw [den, List.length_map, Yields.length_toList]
    exact hvalues
  | .enumerate source start, _, _, .enumerate _ _ inner _ => by
    rw [den, Trace.length_countFrom]
    exact inner.length_den_le
  | .zip [], _, _, .zip .. => by
    rw [den]
    exact Nat.zero_le _
  | .zip (tree :: trees), _, _, .zip _ inner _ => by
    rw [den, dens]
    refine Nat.le_trans (Trace.length_zip_le tree.den (List.mem_cons_self ..)) ?_
    cases inner with
    | cons first _ _ => exact first.length_den_le

end PullIter.Tree
