import PullIter.Proofs.Apart.Life
import PullIter.Proofs.Tree.Grown

/-!
# Work on live objects

An object that has ended faults when it is used.  As long as all objects are live, no work on them
faults: every step has an answer, every loop ends, and what cannot be made cannot be made for want
of storage only.

## Main definitions

* `Cell.Ready` — an object that can be advanced.
* `Alive` — all objects that have a role are there.
* `Returns` — what ends with a result, unless there is no storage left.

## Main results

* `Exec.exists_next` — **a step has an answer**, and all objects stay live.
* `Exec.exists_rounds` — **a loop ends.**
* `Exec.returns_construct`, `Exec.returns_getiter`, `Exec.returns_forEach` — what the host calls.
-/

namespace PullIter

open Linkage (runtime)

/-- What ends with a result, unless there is no storage left. -/
inductive Returns {α : Type} : Except Fault α → Prop
  | ok (result : α) : Returns (.ok result)
  | outOfMemory : Returns (.error .outOfMemory)
  | badBlock : Returns (.error .badBlock)

theorem Returns.map {α β : Type} {run : Except Fault α} (h : Returns run) (f : α → β) :
    Returns (run.map f) := by
  cases h with
  | ok result => exact .ok _
  | outOfMemory => exact .outOfMemory
  | badBlock => exact .badBlock

/-- The fault is passed on. -/
theorem Returns.error {α β : Type} {fault : Fault} (h : Returns (.error fault : Except Fault α)) :
    Returns (.error fault : Except Fault β) := by
  cases h with
  | outOfMemory => exact .outOfMemory
  | badBlock => exact .badBlock

/-! ### Live objects -/

/-- A generator that has not ended can be resumed. -/
def Generator.Resumable (generator : Generator) : Prop :=
  generator.finished = none → generator.body.returned = false

/-- **A resumable generator** is resumed, and can be resumed again. -/
theorem Generator.Resumable.exists_resume {generator : Generator} (h : generator.Resumable) :
    ∃ outcome after, generator.resume = .ok (outcome, after) ∧ after.Resumable := by
  cases hf : generator.finished with
  | some outcome =>
    refine ⟨outcome, generator, Generator.resume_of_finished hf, h⟩
  | none =>
    have hbody := h hf
    rw [Generator.resume, hf, Coroutine.resume, hbody]
    simp only [Bool.false_eq_true, if_false]
    cases generator.body.pending.next? with
    | some next => exact ⟨_, _, rfl, fun _ => rfl⟩
    | none => cases generator.body.failure with
      | none => exact ⟨_, _, rfl, fun hfinished => by cases hfinished⟩
      | some code => exact ⟨_, _, rfl, fun hfinished => by cases hfinished⟩

/-- An object that can be advanced, if it is advanced at all. -/
def Cell.Ready : Cell → Prop
  | .generator g => g.Resumable
  | .array .. | .script _ | .block .. => True

/-- All objects that have a role are there, and ready. -/
structure Alive (cast : Cast) (store : Store) : Prop where
  live : ∀ {address role}, (address, role) ∈ cast →
    ∃ cell, store.get? address = some cell ∧ cell.Ready

namespace Alive

variable {cast : Cast} {store after : Store} {address : UInt64}

theorem of_cells_eq (h : Alive cast store) (hc : after.cells = store.cells) : Alive cast after := by
  refine ⟨fun hm => ?_⟩
  unfold Store.get?
  rw [hc]
  exact h.live hm

/-- A changed object is still there. -/
theorem set (h : Alive cast store) {cell : Cell} (hcell : cell.Ready) :
    Alive cast (store.set address cell) := by
  refine ⟨fun {other role} hm => ?_⟩
  obtain ⟨old, hold, hready⟩ := h.live hm
  by_cases heq : other = address
  · rw [heq] at hold ⊢
    exact ⟨cell, Store.get?_set_self hold, hcell⟩
  · exact ⟨old, by rw [Store.get?_set_of_ne heq, hold], hready⟩

theorem set_block (h : Alive cast store) {block : Block} {words : Words} :
    Alive cast (store.set address (.block block words)) :=
  h.set (show (Cell.block block words).Ready from trivial)

theorem set_array (h : Alive cast store) {elements : List Int64} {calls : Nat} :
    Alive cast (store.set address (.array elements calls)) :=
  h.set (show (Cell.array elements calls).Ready from trivial)

end Alive

/-! ### Starts -/

/-- **An enumerate takes an address**, and perhaps a start behind it. -/
theorem Start.exists_of_checkConstructor {source : Kind} {args : List Arg}
    (h : (Kind.enumerate source).checkConstructor (args.map Arg.kind) = .ok ()) :
    ∃ address start, args = .ptr address :: Start.args start := by
  unfold Kind.checkConstructor at h
  simp only at h
  split at h
  · cases h
  · cases h
  · next first rest hrest hargs =>
    obtain ⟨head, tail, rfl, hhead, htail⟩ := List.map_eq_cons_iff.mp hargs
    split at h
    · cases h
    · next hptr =>
      obtain ⟨address, rfl⟩ := Arg.eq_ptr_of_kind (hhead.trans (by simpa using hptr))
      subst htail
      split at h
      · cases h
      · next hnone =>
        match tail with
        | [] => exact ⟨address, .absent, rfl⟩
        | [.bool b] => exact ⟨address, .bool b, rfl⟩
        | [.i32 n] => exact ⟨address, .i32 n, rfl⟩
        | [.i64 n] => exact ⟨address, .i64 n, rfl⟩
        | [.ptr _] | [.f64 _] => cases hnone
        | _ :: _ :: _ => exact (hrest _ _ _ rfl).elim

namespace Store

variable {cast : Cast} {store : Store} {address : UInt64}

/-! ### Leaves -/

theorem exists_arrayNext (h : Staged cast store) (ha : Alive cast store)
    (hm : (address, .elements) ∈ cast) :
    ∃ step, store.arrayNext address = .ok step ∧ Alive cast step.store := by
  obtain ⟨cell, hc, -⟩ := ha.live hm
  cases h.fits hm hc with
  | @elements block words array =>
    obtain ⟨cell, harray, -⟩ := ha.live array
    cases h.fits array harray with
    | @array elements calls short =>
      simp only [arrayNext, blockAt_of_get? hc, harray]
      split
      · exact ⟨_, rfl, ha.set_array.set_block⟩
      · exact ⟨_, rfl, ha.set_array⟩

theorem exists_rangeNext (h : Staged cast store) (ha : Alive cast store)
    (hm : (address, .range) ∈ cast) :
    ∃ step, store.rangeNext address = .ok step ∧ Alive cast step.store := by
  obtain ⟨cell, hc, -⟩ := ha.live hm
  cases h.fits hm hc with
  | range block words =>
    obtain ⟨step, words', hnext, hafter, -⟩ := Tree.exists_rangeNext hc
    exact ⟨step, hnext, hafter ▸ ha.set_block⟩

theorem exists_generatorNext (h : Staged cast store) (ha : Alive cast store)
    (hm : (address, .generator) ∈ cast) :
    ∃ step, store.generatorNext address = .ok step ∧ Alive cast step.store := by
  obtain ⟨cell, hc, hready⟩ := ha.live hm
  cases h.fits hm hc with
  | @generator generator proper =>
    have hresumable : generator.Resumable := hready
    obtain ⟨outcome, after, hr, hagain⟩ := hresumable.exists_resume
    exact ⟨_, generatorNext_of_resume hc hr, ha.set (show (Cell.generator after).Ready from hagain)⟩

theorem exists_routine {role : Role} {routine : Intrinsic} (h : Staged cast store)
    (ha : Alive cast store) (hr : role.routine? = some routine) (hm : (address, role) ∈ cast) :
    ∃ step, (Provider.intrinsic routine).next address store = .ok step ∧ Alive cast step.store := by
  cases role with
  | elements => cases hr; exact exists_arrayNext h ha hm
  | range => cases hr; exact exists_rangeNext h ha hm
  | generator => cases hr; exact exists_generatorNext h ha hm
  | array => cases hr
  | enumerate => cases hr
  | zip => cases hr

end Store

namespace Exec

variable {cast : Cast}

/-! ### Steps -/

theorem exists_leaf {kind : Kind} {role : Role} {routine : Intrinsic} {iterator : UInt64}
    {store : Store} (h : Staged cast store) (ha : Alive cast store) (hk : kind.role? = some role)
    (hr : role.routine? = some routine) (hm : (iterator, role) ∈ cast) :
    ∃ step, next runtime kind iterator store = .ok step ∧ Alive cast step.store := by
  obtain ⟨step, hs, hafter⟩ := Store.exists_routine h ha hr hm
  rw [next_leaf hk hr, Provider.linkedNext, hs]
  exact ⟨_, rfl, hafter.of_cells_eq rfl⟩

mutual

/-- **A step has an answer**, and all objects stay live. -/
theorem exists_next : ∀ (role : Role) {kind : Kind} {iterator : UInt64} {store : Store},
    Staged cast store → Alive cast store → kind.role? = some role → (iterator, role) ∈ cast →
    ∃ step, next runtime kind iterator store = .ok step ∧ Alive cast step.store
  | .array, kind, iterator, store, h, ha, hk, hm => by cases Kind.roleCases hk
  | .elements, kind, iterator, store, h, ha, hk, hm => exists_leaf h ha hk rfl hm
  | .range, kind, iterator, store, h, ha, hk, hm => exists_leaf h ha hk rfl hm
  | .generator, kind, iterator, store, h, ha, hk, hm => exists_leaf h ha hk rfl hm
  | .enumerate role, kind, state, store, h, ha, hk, hm => by
    cases Kind.roleCases hk with
    | enumerate hsource =>
      obtain ⟨cell, hc, -⟩ := ha.live hm
      cases h.fits hm hc with
      | @enumerate _ block words source =>
        have hpass : Role.Passes (.enumerate role) (.block block words) (.block block
            (words.poke Layout.countIndex (words.peek Layout.countIndex + 1))) :=
          .enumerate role (Words.peek_poke_of_ne (by decide) _ _)
        obtain ⟨inner, hn, hafter⟩ :=
          exists_next role (h.later (h.later_set hm hc hpass)) ha.set_block hsource source
        rw [next_enumerate_of_get? hc, hn]
        exact ⟨_, rfl, hafter⟩
  | .zip roles, kind, state, store, h, ha, hk, hm => by
    cases Kind.roleCases hk with
    | @zip sources _ hsources =>
      cases sources with
      | nil => exact ⟨_, next_zip_nil .., ha⟩
      | cons source sources =>
        rw [next_zip_cons]
        exact exists_nextRound roles h ha hsources hm fun i role hi => by rwa [Nat.zero_add]

/-- So has a round over the sources of a zip from an index on. -/
theorem exists_nextRound : ∀ (roles : List Role) {all : List Role} {kinds : List Kind}
    {state : UInt64} {index : Nat} {slots : List Nat} {valid : Bool} {store : Store},
    Staged cast store → Alive cast store → Kind.roles? kinds = some roles →
    (state, .zip all) ∈ cast →
    (∀ (i : Nat) (role : Role), roles[i]? = some role → all[index + i]? = some role) →
    ∃ step, nextRound runtime kinds state index slots valid store = .ok step ∧
      Alive cast step.store
  | [], all, kinds, state, index, slots, valid, store, h, ha, hk, hm, hall => by
    rw [Kind.roles?_eq_nil hk, nextRound_nil]
    exact ⟨_, rfl, ha⟩
  | role :: roles, all, kinds, state, index, [], valid, store, h, ha, hk, hm, hall => by
    rw [nextRound_noSlots]
    exact ⟨_, rfl, ha⟩
  | role :: roles, all, kinds, state, index, slot :: slots, valid, store, h, ha, hk, hm, hall => by
    obtain ⟨kind, rest, rfl, hrole, hroles⟩ := Kind.roles?_eq_cons hk
    obtain ⟨cell, hc, -⟩ := ha.live hm
    cases h.fits hm hc with
    | @zip _ block words sources =>
      have hsource := sources index role (hall 0 role rfl)
      obtain ⟨inner, hn, hafter⟩ := exists_next role h ha hrole hsource
      have hstaged := h.later (later_next role h hrole hsource hn)
      have hpeek := Store.peek_of_get? hc index
      cases hfail : inner.status.isFailure with
      | true => exact ⟨_, nextRound_of_failure hpeek hn hfail, hafter⟩
      | false =>
        obtain ⟨last, hl, hlast⟩ :=
          exists_nextRound roles hstaged hafter hroles hm (getElem?_behind hall)
        exact ⟨_, nextRound_of_not_failure hpeek hn hfail hl, hlast⟩

end

/-! ### Loops -/

variable {kind : Kind} {role : Role} {value iterator : UInt64} {store after : Store}

theorem returns_getiter (hk : kind.role? = some role) (value : UInt64) (store : Store) :
    Returns (getiter runtime kind value store) := by
  by_cases harray : kind = .array
  · rw [harray, getiter_array]
    by_cases hroom : store.HasRoom
    · obtain ⟨made, hmade, -⟩ := Store.arrayGetiter_of_room hroom value
      rw [hmade]
      exact .ok _
    · rw [Store.arrayGetiter_of_full hroom]
      exact .outOfMemory
  · rw [getiter_of_ne hk harray]
    exact .ok _

theorem unused_getiter (hk : kind.role? = some role)
    (hs : getiter runtime kind value store = .ok (iterator, after)) :
    store.unused ≤ after.unused := by
  rcases getiter_eq_ok hk hs with ⟨-, -, rfl⟩ | ⟨-, -, made, hmade, rfl⟩
  · exact Nat.le_refl _
  · obtain ⟨mid, hmid, rfl⟩ := Store.arrayGetiter_eq_ok hmade
    exact Nat.le_of_lt (Nat.lt_of_le_of_lt hmid.unused hmid.bound)

theorem wellFormed_getiter (hk : kind.role? = some role) (hwf : store.WellFormed)
    (hs : getiter runtime kind value store = .ok (iterator, after)) : after.WellFormed := by
  rcases getiter_eq_ok hk hs with ⟨-, -, rfl⟩ | ⟨-, -, made, hmade, rfl⟩
  · exact hwf
  · obtain ⟨mid, hmid, rfl⟩ := Store.arrayGetiter_eq_ok hmade
    have hnoted : Store.Frame (fun _ => False) mid ((mid.count .arrayIter 1).called
        (.getiter (.intrinsic .arrayGetiter) value iterator)) := Store.frame_of_cells_eq rfl rfl
    exact hnoted.wellFormed (hmid.wellFormed hwf)

theorem returns_alloc (layout : Layout) (store : Store) : Returns (runtime.alloc layout store) := by
  simp only [runtime, Provider.linkedAlloc, Provider.alloc, Store.allocBlock]
  cases hb : Block.of layout.size layout.align with
  | error fault =>
    unfold Block.of at hb
    simp only at hb
    split at hb
    · cases hb
    · cases hb
      exact .badBlock
  | ok block =>
    simp only [Store.alloc, Store.allocAt]
    split
    · exact .ok _
    · exact .outOfMemory

/-- Iterators of the sources of a zip are made, as long as there is storage. -/
theorem returns_storeSources {layout : Layout} {record : List UInt8} {state : UInt64}
    {block : Block} : ∀ {roles : List Role} {kinds : List Kind} {index : Nat} {words : Words}
      {store : Store}, Kind.roles? kinds = some roles → state.toNat < store.unused →
      store.get? state = some (.block block words) →
      (∀ i < kinds.length, ∃ operand, loadArg layout (index + i) record = .ok operand) →
      Returns (storeSources runtime layout record state kinds index store) := by
  intro roles
  induction roles with
  | nil =>
    intro kinds index words store hk _ _ _
    rw [Kind.roles?_eq_nil hk]
    exact .ok _
  | cons role roles ih =>
    intro kinds index words store hk hlt hg hload
    obtain ⟨kind, rest, rfl, hrole, hroles⟩ := Kind.roles?_eq_cons hk
    obtain ⟨operand, hoperand⟩ := hload 0 (Nat.succ_pos _)
    rw [storeSources, show loadArg layout index record = .ok operand from hoperand]
    simp only
    cases hget : getiter runtime kind operand store with
    | error fault => exact (hget ▸ returns_getiter hrole operand store : Returns (.error fault)).error
    | ok made =>
      obtain ⟨iterator, mid⟩ := made
      -- making the iterator does not touch the state
      have hcell := get?_getiter hrole hget hlt
      rw [hg] at hcell
      simp only [Store.poke_of_get? hcell]
      refine ih hroles ?_ (Store.get?_set_self hcell) fun i hi => ?_
      · exact Nat.lt_of_lt_of_le hlt (show store.unused ≤ mid.unused from unused_getiter hrole hget)
      · rw [Nat.add_assoc, Nat.add_comm 1 i]
        exact hload (i + 1) (Nat.succ_lt_succ hi)

/-- The state of a combinator is found where it was allocated. -/
theorem block_of_alloc {layout : Layout} {state : UInt64} (hwf : store.WellFormed)
    (hs : runtime.alloc layout store = .ok (state, after)) :
    state.toNat < after.unused ∧ ∃ block, after.get? state = some (.block block []) := by
  obtain ⟨block, mid, -, hmade, rfl⟩ := Provider.linkedAlloc_eq_ok hs
  exact ⟨hmade.bound, block, hmade.found hwf⟩

/-- **A combinator is made**, whatever the operands, as long as there is storage. -/
theorem returns_construct {args : List Arg} {layout : Layout} (hwf : store.WellFormed)
    (hk : kind.role? = some role) (hc : kind.checkConstructor (args.map Arg.kind) = .ok ())
    (hl : Entry.argsLayout? kind (args.map Arg.kind) = some layout) :
    Returns (construct runtime kind (args.map Arg.kind) (Arg.record layout args) store) := by
  obtain ⟨hlen, hload⟩ := loadArg_pointers hc hl
  have hoperand : ∀ i < kind.sources.length, ∃ operand,
      loadArg layout i (Arg.record layout args) = .ok operand := fun i hi =>
    ⟨_, hload i _ (List.getElem?_eq_getElem (hlen ▸ hi))⟩
  cases Kind.roleCases hk with
  | @enumerate source role hsource =>
    cases hl
    obtain ⟨operand, hoperand⟩ := hoperand 0 Nat.one_pos
    obtain ⟨address, start, rfl⟩ := Start.exists_of_checkConstructor hc
    rw [construct, hoperand, List.map_cons, show (Arg.ptr address).kind = .ptr from rfl,
      Tree.loadStart_record]
    simp only
    cases hget : getiter runtime source operand store with
    | error fault => exact (hget ▸ returns_getiter hsource operand store : Returns (.error fault)).error
    | ok made =>
      obtain ⟨iterator, mid⟩ := made
      simp only
      cases halloc : runtime.alloc Entry.enumerateState mid with
      | error fault => exact (halloc ▸ returns_alloc _ mid : Returns (.error fault)).error
      | ok fresh =>
        obtain ⟨state, empty⟩ := fresh
        -- the count and the iterator are stored into a block that was just allocated
        obtain ⟨-, block, hcell⟩ := block_of_alloc (wellFormed_getiter hsource hwf hget) halloc
        simp only [Store.poke_of_get? hcell]
        have hcell' : (empty.set state (.block block (Words.poke [] Layout.countIndex
            start.count.toUInt64))).get? state = some (.block block _) := Store.get?_set_self hcell
        rw [Store.poke_of_get? hcell']
        exact .ok _
  | @zip sources roles hsources =>
    cases hl
    rw [construct]
    cases halloc : runtime.alloc (Entry.zipState sources.length) store with
    | error fault => exact (halloc ▸ returns_alloc _ store : Returns (.error fault)).error
    | ok fresh =>
      obtain ⟨state, empty⟩ := fresh
      obtain ⟨hbound, block, hcell⟩ := block_of_alloc hwf halloc
      refine (returns_storeSources hsources hbound hcell fun i hi => ?_).map _
      rw [Nat.zero_add]
      exact hoperand i hi
  | array => cases hl
  | iterator => cases hl
  | range => cases hl
  | coroutine => cases hl

end Exec

end PullIter
