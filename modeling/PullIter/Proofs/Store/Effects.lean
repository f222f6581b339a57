import PullIter.Proofs.Store.Answers

/-!
# What a routine does to the store

A routine that is called for an object works on that object alone, whichever symbol the routine is
linked to and whatever it is called as.  It notes no call, and the states of combinators are
neither made nor ended by it.  Unless it is there to end its object, it ends none.

## Main definitions

* `Provider.ends` — the routines that end the object they are called for.
* `Store.Touches` — the effect of a routine that is called for an object.
* `Store.Recent` — a word that is the address of no object that was there before.

## Main results

* `Provider.touches_next`, `Provider.touches_getiter`, `Provider.touches_release` — every routine
  works on its object alone, and an iterator that was made is no object that was there before.
-/

namespace PullIter

/-- The routine ends the object that it is called for. -/
def Provider.ends : Provider → Bool
  | intrinsic .free | intrinsic .arrayRelease | intrinsic .rangeRelease | scriptRelease => true
  | intrinsic .alloc | intrinsic .arrayGetiter | intrinsic .arrayNext | intrinsic .rangeNext
  | intrinsic .generatorResume | scriptNext | scriptGetiter | foreign => false

namespace Store

variable {before after : Store}

/-- The effect of a routine that is called for an object. -/
structure Touches (provider : Provider) (address : UInt64) (before after : Store) : Prop where
  frame : Frame (Only address) before after
  keeps : provider.ends = false → Keeps before after
  calls : after.calls = before.calls
  states : after.counters.combinatorState = before.counters.combinatorState
  arrayIters : provider ≠ .intrinsic .arrayGetiter → provider ≠ .intrinsic .arrayRelease →
    after.counters.arrayIter = before.counters.arrayIter

/-- A word that is the address of no object that was there before. -/
def Recent (before after : Store) (word : UInt64) : Prop :=
  (before.unused ≤ word.toNat ∧ word.toNat < after.unused) ∨ word.toNat < firstAddress

/-! ### Routines that advance -/

theorem touches_arrayNext {provider : Provider} {address : UInt64} {step : Step}
    (h : before.arrayNext address = .ok step) : Touches provider address before step.store := by
  obtain ⟨block, words, hb, ⟨elements, calls, ha, hcases⟩ | ⟨-, rfl⟩⟩ := arrayNext_cases h
  · have hcount : ∀ own, Frame own before
        (before.set (words.peek 0) (.array elements (calls + 1))) := fun _ => frame_set_array ha
    have hkeeps := (hcount fun _ => False).keeps
    rcases hcases with ⟨value, -, rfl⟩ | ⟨-, rfl⟩
    · have hb' := (hcount fun _ => False).block id hb
      exact ⟨(hcount _).trans (frame_set _ (only_self _)),
        fun _ => hkeeps.trans (keeps_set hb' rfl), rfl, rfl, fun _ _ => rfl⟩
    · exact ⟨hcount _, fun _ => hkeeps, rfl, rfl, fun _ _ => rfl⟩
  · exact ⟨Frame.refl _ _, fun _ => .refl _, rfl, rfl, fun _ _ => rfl⟩

theorem touches_rangeNext {provider : Provider} {address : UInt64} {step : Step}
    (h : before.rangeNext address = .ok step) : Touches provider address before step.store := by
  obtain ⟨_, _, _, hb, -, hstore, -⟩ := rangeNext_eq_ok h
  rw [hstore]
  exact ⟨frame_set _ (only_self _), fun _ => keeps_set hb rfl, rfl, rfl, fun _ _ => rfl⟩

theorem touches_generatorNext {provider : Provider} {address : UInt64} {step : Step}
    (h : before.generatorNext address = .ok step) : Touches provider address before step.store := by
  obtain ⟨_, _, _, hg, -, rfl⟩ := generatorNext_eq_ok h
  exact ⟨frame_set _ (only_self _), fun _ => keeps_set hg rfl, rfl, rfl, fun _ _ => rfl⟩

theorem touches_scriptNext {provider : Provider} {address : UInt64} {step : Step}
    (h : before.scriptNext address = .ok step) : Touches provider address before step.store := by
  unfold scriptNext at h
  split at h
  · next script hs =>
    split at h
    · cases h
      have hplayed : Keeps before
          (before.set address (.script { script with position := script.position + 1 })) :=
        keeps_set hs rfl
      exact ⟨(frame_set _ (only_self _)).trans (frame_of_cells_eq rfl rfl),
        fun _ => hplayed.trans (keeps_of_cells_eq rfl rfl), rfl, rfl, fun _ _ => rfl⟩
    · cases h
      exact ⟨frame_of_cells_eq rfl rfl, fun _ => keeps_of_cells_eq rfl rfl, rfl, rfl,
        fun _ _ => rfl⟩
  · cases h

/-! ### Routines that make an object -/

/-- Counting does not change any object. -/
theorem frame_count {own : UInt64 → Prop} (store : Store) (kind : AllocKind) (by_ : Int) :
    Frame own store (store.count kind by_) :=
  frame_of_cells_eq rfl rfl

theorem touches_arrayGetiter {address array : UInt64} {made : UInt64 × Store}
    (h : before.arrayGetiter array = .ok made) :
    Touches (.intrinsic .arrayGetiter) address before made.2 ∧ Recent before made.2 made.1 := by
  unfold arrayGetiter at h
  obtain ⟨fresh, store, hmade, rfl⟩ := made_of_map (by decide) (by decide) h
  refine ⟨⟨hmade.frame.trans (frame_count store _ _),
    fun _ => (hmade.frame.trans (frame_count store _ _)).keeps, hmade.calls, ?_,
    fun hne => absurd rfl hne⟩, .inl ⟨hmade.unused, hmade.bound⟩⟩
  rw [← hmade.counters]
  rfl

theorem touches_scriptGetiter {provider : Provider} {address : UInt64} {made : UInt64 × Store}
    (h : before.scriptGetiter address = .ok made) :
    Touches provider address before made.2 ∧ Recent before made.2 made.1 := by
  unfold scriptGetiter at h
  split at h
  · next script hs =>
    have hset : Frame (Only address) before ((before.set address
        (.script { script with copies := script.copies + 1 })).log (.getiter script.name)) :=
      (frame_set _ (only_self _)).trans (frame_of_cells_eq rfl rfl)
    have hcounted : Keeps before
        (before.set address (.script { script with copies := script.copies + 1 })) :=
      keeps_set hs rfl
    obtain ⟨fresh, store, hmade, rfl⟩ :=
      made_of_map (by decide) (by decide) h
    refine ⟨⟨(hset.trans hmade.frame).trans (frame_of_cells_eq rfl rfl),
      fun _ => (hcounted.trans ((keeps_of_cells_eq rfl rfl).trans hmade.frame.keeps)).trans
        (keeps_of_cells_eq rfl rfl), hmade.calls, ?_, ?_⟩, .inl ⟨hmade.unused, hmade.bound⟩⟩
    · exact congrArg Counters.combinatorState hmade.counters
    · intro _ _
      exact congrArg Counters.arrayIter hmade.counters
  · cases h

/-- A block has room and an alignment. -/
theorem block_pos {size align : Int} {block : Block} (h : Block.of size align = .ok block) :
    0 < block.size ∧ 0 < block.align := by
  unfold Block.of at h
  simp only at h
  split at h
  · cases h
    simp only
    omega
  · cases h

theorem bumpTag_noTag (counters : Counters) (by_ : Int) : counters.bumpTag noTag by_ = counters := rfl

/-- Storage that no kind is counted for. -/
theorem touches_allocBlock {provider : Provider} {address : UInt64} {size align : Int}
    {made : UInt64 × Store}
    (h : before.allocBlock size align noTag = .ok made) :
    Touches provider address before made.2 ∧ Recent before made.2 made.1 := by
  unfold allocBlock at h
  split at h
  · cases h
  · next block hb =>
    have hpos := block_pos hb
    obtain ⟨fresh, store, hmade, rfl⟩ := made_of_map hpos.1 hpos.2 h
    have hcount : store.countTag noTag 1 = store := by
      unfold countTag
      rw [bumpTag_noTag]
    simp only [hcount]
    refine ⟨⟨hmade.frame, fun _ => hmade.frame.keeps, hmade.calls, ?_, fun _ _ => ?_⟩,
      .inl ⟨hmade.unused, hmade.bound⟩⟩
    · rw [hmade.counters]
    · rw [hmade.counters]

/-! ### Routines that end an object -/

theorem touches_arrayRelease {address : UInt64} (h : before.arrayRelease address = .ok after) :
    Touches (.intrinsic .arrayRelease) address before after := by
  rcases arrayRelease_eq_ok h with ⟨-, rfl⟩ | rfl
  · exact ⟨Frame.refl _ _, nofun, rfl, rfl, fun _ _ => rfl⟩
  · exact ⟨(frame_erase (only_self _)).trans (frame_count _ _ _), nofun, rfl, rfl,
      fun _ hne => absurd rfl hne⟩

theorem touches_rangeRelease {address : UInt64} (h : before.rangeRelease address = .ok after) :
    Touches (.intrinsic .rangeRelease) address before after := by
  rcases rangeRelease_eq_ok h with ⟨-, rfl⟩ | rfl
  · exact ⟨Frame.refl _ _, nofun, rfl, rfl, fun _ _ => rfl⟩
  · exact ⟨(frame_erase (only_self _)).trans (frame_count _ _ _), nofun, rfl, rfl, fun _ _ => rfl⟩

theorem touches_scriptRelease {address : UInt64} (h : before.scriptRelease address = .ok after) :
    Touches .scriptRelease address before after := by
  unfold scriptRelease at h
  split at h
  · simp only at h
    cases h
    have herase : Frame (Only address) before (before.erase address) := frame_erase (only_self _)
    split
    · exact ⟨herase.trans (frame_of_cells_eq rfl rfl), nofun, rfl, rfl, fun _ _ => rfl⟩
    · exact ⟨herase.trans (frame_of_cells_eq rfl rfl), nofun, rfl, rfl, fun _ _ => rfl⟩
  · cases h

theorem touches_freeBlock {address : UInt64} {size align : Int}
    (h : before.freeBlock address size align noTag = .ok after) :
    Touches (.intrinsic .free) address before after := by
  rcases freeBlock_eq_ok h with ⟨-, rfl⟩ | rfl
  · exact ⟨Frame.refl _ _, nofun, rfl, rfl, fun _ _ => rfl⟩
  · refine ⟨(frame_erase (only_self _)).trans (frame_of_cells_eq rfl rfl), nofun, rfl, ?_,
      fun _ _ => ?_⟩
    · exact congrArg Counters.combinatorState (bumpTag_noTag _ (-1))
    · exact congrArg Counters.arrayIter (bumpTag_noTag _ (-1))

end Store

/-! ### Routines in any shape -/

namespace Provider

open Store

variable {before after : Store}

/-- A status word, and the word that stands for none, are below every address. -/
theorem recent_of_lt {word : UInt64} (h : word.toNat < UInt32.size) : Recent before after word :=
  .inr (Nat.lt_trans h (by decide))

theorem recent_step (step : Step) : Recent before after step.status.toUInt32.toUInt64 := by
  refine recent_of_lt ?_
  rw [UInt32.toNat_toUInt64]
  exact step.status.toUInt32.toNat_lt

/-- **A routine that is called for an object** works on it alone, and what it returns is no object
that was there before. -/
theorem touches_call {provider : Provider} {address : UInt64} {called : Called}
    (h : provider.call [address] before = .ok called) :
    Touches provider address before called.store ∧
      Recent before called.store (called.result.getD strayWord) := by
  have hstray : ∀ {after}, Recent before after strayWord := fun {after} => recent_of_lt (by decide)
  cases provider with
  | intrinsic routine =>
    cases routine with
    | alloc =>
      obtain ⟨made, hm, rfl⟩ := Except.exists_of_map_eq_ok h
      exact touches_allocBlock hm
    | free =>
      obtain ⟨store, hm, rfl⟩ := Except.exists_of_map_eq_ok h
      exact ⟨touches_freeBlock hm, hstray⟩
    | arrayGetiter =>
      obtain ⟨made, hm, rfl⟩ := Except.exists_of_map_eq_ok h
      exact touches_arrayGetiter hm
    | arrayNext =>
      obtain ⟨step, hm, rfl⟩ := Except.exists_of_map_eq_ok h
      exact ⟨touches_arrayNext hm, recent_step step⟩
    | arrayRelease =>
      obtain ⟨store, hm, rfl⟩ := Except.exists_of_map_eq_ok h
      exact ⟨touches_arrayRelease hm, hstray⟩
    | rangeNext =>
      obtain ⟨step, hm, rfl⟩ := Except.exists_of_map_eq_ok h
      exact ⟨touches_rangeNext hm, recent_step step⟩
    | rangeRelease =>
      obtain ⟨store, hm, rfl⟩ := Except.exists_of_map_eq_ok h
      exact ⟨touches_rangeRelease hm, hstray⟩
    | generatorResume =>
      obtain ⟨step, hm, rfl⟩ := Except.exists_of_map_eq_ok h
      exact ⟨touches_generatorNext hm, recent_step step⟩
  | scriptNext =>
    obtain ⟨step, hm, rfl⟩ := Except.exists_of_map_eq_ok h
    exact ⟨touches_scriptNext hm, recent_step step⟩
  | scriptGetiter =>
    obtain ⟨made, hm, rfl⟩ := Except.exists_of_map_eq_ok h
    exact touches_scriptGetiter hm
  | scriptRelease =>
    obtain ⟨store, hm, rfl⟩ := Except.exists_of_map_eq_ok h
    exact ⟨touches_scriptRelease hm, hstray⟩
  | foreign => cases h

/-- **Advancing an iterator** works on the iterator alone. -/
theorem touches_next {provider : Provider} {iterator : UInt64} {step : Step}
    (h : provider.next iterator before = .ok step) :
    Touches provider iterator before step.store := by
  unfold next at h
  split at h
  · exact touches_arrayNext h
  · exact touches_rangeNext h
  · exact touches_generatorNext h
  · exact touches_scriptNext h
  · split at h
    · cases h
    · next hc => cases h; exact (touches_call hc).1
    · cases h

/-- **Making an iterator** works on the value alone, and makes no object that was there before. -/
theorem touches_getiter {provider : Provider} {value : UInt64} {made : UInt64 × Store}
    (h : provider.getiter value before = .ok made) :
    Touches provider value before made.2 ∧ Recent before made.2 made.1 := by
  rw [getiter_eq_call, callForAddress] at h
  cases hc : provider.call [value] before with
  | error fault => rw [hc] at h; cases h
  | ok called =>
    rw [hc] at h
    cases h
    exact touches_call hc

/-- **Ending an iterator** works on the iterator alone. -/
theorem touches_release {provider : Provider} {iterator : UInt64}
    (h : provider.release iterator before = .ok after) : Touches provider iterator before after := by
  rw [release_eq_call, callForEffect] at h
  cases hc : provider.call [iterator] before with
  | error fault => rw [hc] at h; cases h
  | ok called =>
    rw [hc] at h
    cases h
    exact (touches_call hc).1

end Provider

end PullIter
