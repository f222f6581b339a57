import PullIter.Proofs.Store.Frame
import PullIter.Kind.Describe
import PullIter.Layout.Standard

/-!
# The states of combinators in the store

The state of a combinator is a record of words, and the words of its sources are what `getiter`
returned when it was made.  Nothing that runs later changes them: a step moves counts only, and a
linked routine works on the object that it is called for, which is no state.

A source may be ended before the combinator that it is a source of.  Its address is never handed
out again, so the word stays what it was: the address of nothing.

## Main definitions

* `Combinator` — a combinator that lives, with its state and the iterators of its sources.
* `Points` — a word that is used as a value of a kind.
* `Typed` — the states of the combinators that live.

## Main results

* `Typed.frame` — whoever leaves the states alone keeps the store typed.
* `Typed.count` — so does moving a count.
* `Typed.make`, `Typed.erase` — the life of a state.
-/

namespace PullIter

open Store (Frame Only)

namespace Kind

/-- A value of the kind has a state of its own. -/
def isCombinator : Kind → Bool
  | enumerate _ | zip _ => true
  | generator .. | external _ => false

/-- The kinds of the sources of a combinator. -/
def sources : Kind → List Kind
  | enumerate source => [source]
  | zip sources => sources
  | generator .. | external _ => []

/-- Where the state of a combinator has the word of a source. -/
def sourceWord : Kind → Nat → Nat
  | enumerate _, _ => Layout.sourceIndex
  | zip _, index | generator .., index | external _, index => index

end Kind

/-- A combinator with its state and the iterators of its sources. -/
structure Combinator where
  kind : Kind
  state : UInt64
  iterators : List UInt64

/-- The state of the combinator is in the store, with the iterators of its sources. -/
def Combinator.Found (value : Combinator) (store : Store) : Prop :=
  ∃ block words, store.get? value.state = some (.block block words) ∧
    ∀ (i : Nat) (iterator : UInt64), value.iterators[i]? = some iterator →
      words.peek (value.kind.sourceWord i) = iterator

/-- An address that is the state of none of the combinators. -/
def Spared (made : List Combinator) (address : UInt64) : Prop :=
  ∀ value ∈ made, value.state ≠ address

/-- A word that is used as a value of a kind. -/
inductive Points (made : List Combinator) (store : Store) (kind : Kind) (word : UInt64) : Prop
  | combinator {value : Combinator} (combinator : kind.isCombinator = true) (mem : value ∈ made)
      (same : value.kind = kind) (state : value.state = word)
  /-- A combinator that has ended. -/
  | gone (combinator : kind.isCombinator = true) (absent : store.get? word = none)
      (bound : word.toNat < store.unused)
  | leaf (leaf : kind.isCombinator = false) (spared : Spared made word)
      (bound : word.toNat < store.unused) (array : kind = .array → word ≠ 0)

/-- The states of the combinators that live. -/
structure Typed (made : List Combinator) (store : Store) : Prop where
  wellFormed : store.WellFormed
  apart : made.Pairwise fun value other => value.state ≠ other.state
  found : ∀ value ∈ made, value.Found store
  full : ∀ value ∈ made, value.iterators.length = value.kind.sources.length
  points : ∀ value ∈ made, ∀ (i : Nat) (source : Kind) (iterator : UInt64),
    value.kind.sources[i]? = some source → value.iterators[i]? = some iterator →
    Points made store source iterator

variable {made : List Combinator} {store after : Store} {kind : Kind} {word : UInt64}

/-! ### Words -/

theorem Points.of_leaf (h : Points made store kind word) (hk : kind.isCombinator = false) :
    Spared made word ∧ word.toNat < store.unused ∧ (kind = .array → word ≠ 0) := by
  cases h with
  | combinator hc => rw [hk] at hc; cases hc
  | gone hc => rw [hk] at hc; cases hc
  | leaf _ spared bound array => exact ⟨spared, bound, array⟩

/-- A combinator of which a word can be read lives. -/
theorem Points.of_get? (h : Points made store kind word) (hk : kind.isCombinator = true)
    (hg : store.get? word ≠ none) : ∃ value ∈ made, value.kind = kind ∧ value.state = word := by
  cases h with
  | combinator _ mem same state => exact ⟨_, mem, same, state⟩
  | gone _ absent => exact absurd absent hg
  | leaf hl => rw [hk] at hl; cases hl

/-- What a word is used as does not change. -/
theorem Points.frame (h : Points made store kind word) {own : UInt64 → Prop}
    (hf : Frame own store after) : Points made after kind word := by
  cases h with
  | combinator hc mem same state => exact .combinator hc mem same state
  | gone hc absent bound =>
    refine .gone hc ?_ (Nat.lt_of_lt_of_le bound hf.unused)
    cases hg : after.get? word with
    | none => rfl
    | some cell =>
      rcases hf.fresh (by rw [hg]; rfl) with hs | hle
      · rw [absent] at hs
        cases hs
      · omega
  | leaf hl spared bound array => exact .leaf hl spared (Nat.lt_of_lt_of_le bound hf.unused) array

/-- The order of the combinators does not matter. -/
theorem Points.perm {made' : List Combinator} (h : Points made store kind word)
    (hp : made.Perm made') : Points made' store kind word := by
  cases h with
  | combinator hc mem same state => exact .combinator hc (hp.mem_iff.mp mem) same state
  | gone hc absent bound => exact .gone hc absent bound
  | leaf hl spared bound array =>
    exact .leaf hl (fun other ho => spared other (hp.mem_iff.mpr ho)) bound array

/-- A new state is no word that was used before. -/
theorem Points.cons (h : Points made store kind word) {value : Combinator}
    (hne : value.state ≠ word) : Points (value :: made) store kind word := by
  cases h with
  | combinator hc mem same state => exact .combinator hc (List.mem_cons_of_mem _ mem) same state
  | gone hc absent bound => exact .gone hc absent bound
  | leaf hl spared bound array =>
    refine .leaf hl (fun other hm => ?_) bound array
    rcases List.mem_cons.mp hm with rfl | hm
    · exact hne
    · exact spared other hm

/-- A word that was the address of a state is the address of nothing when the state has ended. -/
theorem Points.erase {value : Combinator} (h : Points (value :: made) store kind word)
    (hbound : value.state.toNat < store.unused) :
    Points made (store.erase value.state) kind word := by
  have hframe : Frame (Only value.state) store (store.erase value.state) :=
    Store.frame_erase (Store.only_self _)
  have hgone := h.frame hframe
  cases hgone with
  | @combinator other hc mem same state =>
    rcases List.mem_cons.mp mem with rfl | mem
    · refine .gone hc ?_ ?_
      · rw [← state]
        exact Store.get?_erase_self ..
      · rw [← state]
        exact hbound
    · exact .combinator hc mem same state
  | gone hc absent bound => exact .gone hc absent bound
  | leaf hl spared bound array =>
    exact .leaf hl (fun other hm => spared other (List.mem_cons_of_mem _ hm)) bound array

theorem Combinator.Found.isSome {value : Combinator} (h : value.Found store) :
    (store.get? value.state).isSome := by
  obtain ⟨block, words, hg, -⟩ := h
  rw [hg]
  rfl

namespace Typed

theorem nil (h : store.WellFormed) : Typed [] store :=
  ⟨h, .nil, fun _ hm => absurd hm List.not_mem_nil, fun _ hm => absurd hm List.not_mem_nil,
    fun _ hm => absurd hm List.not_mem_nil⟩

/-- A state is at an address that was handed out. -/
theorem bounds (h : Typed made store) {value : Combinator} (hm : value ∈ made) :
    Store.firstAddress ≤ value.state.toNat ∧ value.state.toNat < store.unused := by
  obtain ⟨cell, hg⟩ := Option.isSome_iff_exists.mp (h.found value hm).isSome
  exact h.wellFormed.bounds hg

/-- A word that is used is below what was never used. -/
theorem lt_unused (h : Typed made store) (hp : Points made store kind word) :
    word.toNat < store.unused := by
  cases hp with
  | combinator _ mem _ state =>
    rw [← state]
    exact (h.bounds mem).2
  | gone _ _ bound => exact bound
  | leaf _ _ bound _ => exact bound

theorem iterator_lt (h : Typed made store) {value : Combinator} (hm : value ∈ made)
    {iterator : UInt64} (hi : iterator ∈ value.iterators) : iterator.toNat < store.unused := by
  obtain ⟨i, hlt, rfl⟩ := List.mem_iff_getElem.mp hi
  have hlt' : i < value.kind.sources.length := by
    rw [← h.full value hm]
    exact hlt
  exact h.lt_unused (h.points value hm i _ _ (List.getElem?_eq_getElem hlt')
    (List.getElem?_eq_getElem hlt))

/-- What was never used is no state. -/
theorem spared (h : Typed made store) (hle : store.unused ≤ word.toNat) : Spared made word := by
  intro value hm heq
  have hlt := (h.bounds hm).2
  rw [heq] at hlt
  omega

theorem unique (h : Typed made store) {value other : Combinator} (hm : value ∈ made)
    (ho : other ∈ made) (heq : value.state = other.state) : value = other := by
  have happart := h.apart
  clear h
  induction made with
  | nil => cases hm
  | cons first rest ih =>
    rw [List.pairwise_cons] at happart
    rcases List.mem_cons.mp hm with rfl | hm'
    · rcases List.mem_cons.mp ho with rfl | ho'
      · rfl
      · exact absurd heq (happart.1 other ho')
    · rcases List.mem_cons.mp ho with rfl | ho'
      · exact absurd heq.symm (happart.1 value hm')
      · exact ih hm' ho' happart.2

theorem perm {made' : List Combinator} (h : Typed made store) (hp : made.Perm made') :
    Typed made' store where
  wellFormed := h.wellFormed
  apart := (hp.pairwise_iff fun hne => hne.symm).mp h.apart
  found value hm := h.found value (hp.mem_iff.mpr hm)
  full value hm := h.full value (hp.mem_iff.mpr hm)
  points value hm i source iterator hs hi :=
    (h.points value (hp.mem_iff.mpr hm) i source iterator hs hi).perm hp

/-! ### What keeps the store typed -/

/-- **Whoever leaves the states alone** keeps the store typed. -/
theorem frame (h : Typed made store) {own : UInt64 → Prop} (hf : Frame own store after)
    (hown : ∀ address, own address → Spared made address) : Typed made after where
  wellFormed := hf.wellFormed h.wellFormed
  apart := h.apart
  found := by
    intro value hm
    obtain ⟨block, words, hg, hwords⟩ := h.found value hm
    exact ⟨block, words, hf.block (fun ho => hown _ ho value hm rfl) hg, hwords⟩
  full := h.full
  points := by
    intro value hm i source iterator hs hi
    exact (h.points value hm i source iterator hs hi).frame hf

/-- A source is found in a state where the combinator keeps it. -/
theorem peek_source (h : Typed made store) {value : Combinator} (hm : value ∈ made)
    {block : Block} {words : Words} (hg : store.get? value.state = some (.block block words))
    {i : Nat} {source : Kind} (hs : value.kind.sources[i]? = some source) :
    value.iterators[i]? = some (words.peek (value.kind.sourceWord i)) ∧
      Points made store source (words.peek (value.kind.sourceWord i)) := by
  have hlt : i < value.iterators.length := by
    rw [h.full value hm]
    exact (List.getElem?_eq_some_iff.mp hs).1
  have hi : value.iterators[i]? = some value.iterators[i] := List.getElem?_eq_getElem hlt
  obtain ⟨block', words', hg', hwords⟩ := h.found value hm
  rw [hg] at hg'
  cases hg'
  rw [hwords i _ hi]
  exact ⟨hi, h.points value hm i source _ hs hi⟩

/-- **Moving a count** keeps the store typed. -/
theorem count (h : Typed made store) {value : Combinator} (hm : value ∈ made) {source : Kind}
    (hkind : value.kind = .enumerate source) {block : Block} {words : Words}
    (hg : store.get? value.state = some (.block block words)) (count : UInt64) :
    Typed made (store.set value.state (.block block (words.poke Layout.countIndex count))) := by
  have hf : Frame (Only value.state) store _ :=
    Store.frame_set (.block block (words.poke Layout.countIndex count)) (Store.only_self value.state)
  refine ⟨hf.wellFormed h.wellFormed, h.apart, ?_, h.full, ?_⟩
  · intro other ho
    obtain ⟨block', words', hg', hwords⟩ := h.found other ho
    by_cases heq : other.state = value.state
    · obtain rfl := h.unique ho hm heq
      rw [hg] at hg'
      cases hg'
      refine ⟨block, _, Store.get?_set_self hg, fun i iterator hi => ?_⟩
      have hword : other.kind.sourceWord i ≠ Layout.countIndex := by
        rw [hkind]
        exact Nat.succ_ne_zero 0
      rw [Words.peek_poke_of_ne hword]
      exact hwords i iterator hi
    · exact ⟨block', words', by rw [Store.get?_set_of_ne heq, hg'], hwords⟩
  · intro other ho i source iterator hs hi
    exact (h.points other ho i source iterator hs hi).frame hf

/-! ### The life of a state -/

/-- **A state that was made** and filled with the iterators of its sources. -/
theorem make (h : Typed made after) {value : Combinator} (hfound : value.Found after)
    (hspared : Spared made value.state)
    (hfull : value.iterators.length = value.kind.sources.length)
    (hpoints : ∀ (i : Nat) (source : Kind) (iterator : UInt64),
      value.kind.sources[i]? = some source → value.iterators[i]? = some iterator →
      Points made after source iterator ∧ value.state ≠ iterator)
    (hold : ∀ other ∈ made, ∀ iterator ∈ other.iterators, value.state ≠ iterator) :
    Typed (value :: made) after where
  wellFormed := h.wellFormed
  apart := List.pairwise_cons.mpr ⟨fun other ho heq => hspared other ho heq.symm, h.apart⟩
  found := by
    intro other ho
    rcases List.mem_cons.mp ho with rfl | ho
    · exact hfound
    · exact h.found other ho
  full := by
    intro other ho
    rcases List.mem_cons.mp ho with rfl | ho
    · exact hfull
    · exact h.full other ho
  points := by
    intro other ho i source iterator hs hi
    rcases List.mem_cons.mp ho with rfl | ho
    · obtain ⟨hp, hne⟩ := hpoints i source iterator hs hi
      exact hp.cons hne
    · exact (h.points other ho i source iterator hs hi).cons
        (hold other ho iterator (List.mem_of_getElem? hi))

/-- **A state that is ended** leaves the others as they are. -/
theorem erase {value : Combinator} (h : Typed (value :: made) store) :
    Typed made (store.erase value.state) := by
  have happart := List.pairwise_cons.mp h.apart
  have hf : Frame (Only value.state) store (store.erase value.state) :=
    Store.frame_erase (Store.only_self _)
  refine ⟨hf.wellFormed h.wellFormed, happart.2, ?_, ?_, ?_⟩
  · intro other ho
    obtain ⟨block, words, hg, hwords⟩ := h.found other (List.mem_cons_of_mem _ ho)
    exact ⟨block, words, hf.block (fun heq => happart.1 other ho heq.symm) hg, hwords⟩
  · exact fun other ho => h.full other (List.mem_cons_of_mem _ ho)
  · intro other ho i source iterator hs hi
    exact (h.points other (List.mem_cons_of_mem _ ho) i source iterator hs hi).erase
      (h.bounds (List.mem_cons_self ..)).2

end Typed

end PullIter
