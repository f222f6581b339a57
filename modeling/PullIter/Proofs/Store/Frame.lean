import PullIter.Store.Calls

/-!
# What an access leaves alone

An access to the store changes the objects it is about, and it may make new ones, at addresses
that were never used.  Every other object stays as it is, but for one thing: the array behind
an iterator counts the steps that are asked for.

## Main definitions

* `Cell.Alike` — the same object, up to the count of an array.
* `Store.WellFormed` — every object is at an address that was handed out.
* `Store.Frame` — nothing is changed but some objects, and new objects are really new.
* `Store.Keeps` — no object is ended.

## Main results

* `Frame.trans`, `Frame.mono` — frames compose.
* `frame_set`, `frame_erase`, `alloc_spec` — what the accesses change.
-/

namespace PullIter

/-- The same object, up to the number of steps that an array counts. -/
inductive Cell.Alike : Cell → Cell → Prop
  | refl (cell : Cell) : Alike cell cell
  | array (elements : List Int64) (calls calls' : Nat) :
      Alike (.array elements calls) (.array elements calls')

/-- The object is a script. -/
def Cell.isScript : Cell → Bool
  | script _ => true
  | array .. | generator _ | block .. => false

namespace Cell.Alike

theorem isScript_eq {cell other : Cell} (h : cell.Alike other) : other.isScript = cell.isScript := by
  cases h with
  | refl => rfl
  | array => rfl

theorem trans {a b c : Cell} (h : a.Alike b) (h' : b.Alike c) : a.Alike c := by
  cases h with
  | refl => exact h'
  | array elements calls calls' => cases h' with
    | refl => exact .array ..
    | array => exact .array ..

theorem block_eq {block : Block} {words : Words} {cell : Cell}
    (h : (Cell.block block words).Alike cell) : cell = .block block words := by
  cases h
  rfl

theorem array_eq {elements : List Int64} {calls : Nat} {cell : Cell}
    (h : (Cell.array elements calls).Alike cell) : ∃ calls', cell = .array elements calls' := by
  cases h with
  | refl => exact ⟨calls, rfl⟩
  | array _ _ calls' => exact ⟨calls', rfl⟩

theorem generator_eq {generator : Generator} {cell : Cell}
    (h : (Cell.generator generator).Alike cell) : cell = .generator generator := by
  cases h
  rfl

end Cell.Alike

namespace Store

/-- Every object is at an address that was handed out. -/
structure WellFormed (store : Store) : Prop where
  first : firstAddress ≤ store.unused
  bounds : ∀ {address cell}, store.get? address = some cell →
    firstAddress ≤ address.toNat ∧ address.toNat < store.unused

theorem wellFormed_empty : WellFormed empty :=
  ⟨Nat.le_refl _, fun h => by simp [empty, get?] at h⟩

/-- Nothing is changed but the objects in `own`, and new objects are really new. -/
structure Frame (own : UInt64 → Prop) (before after : Store) : Prop where
  kept : ∀ {address}, ¬own address → ∀ {cell}, before.get? address = some cell →
    ∃ cell', after.get? address = some cell' ∧ cell.Alike cell'
  fresh : ∀ {address}, (after.get? address).isSome →
    (before.get? address).isSome ∨ before.unused ≤ address.toNat
  unused : before.unused ≤ after.unused
  wellFormed : before.WellFormed → after.WellFormed

/-- The frame of a single object. -/
def Only (address other : UInt64) : Prop := other = address

theorem only_self (address : UInt64) : Only address address := rfl

theorem not_only_of_not_mem {address : UInt64} {addresses : List UInt64} (h : address ∉ addresses) :
    ∀ a ∈ addresses, ¬Only address a := fun _ hm heq => h (heq ▸ hm)

variable {own own' : UInt64 → Prop} {before after store : Store}

theorem Frame.refl (own : UInt64 → Prop) (store : Store) : Frame own store store where
  kept := by
    intro address _ cell h
    exact ⟨cell, h, .refl cell⟩
  fresh h := .inl h
  unused := Nat.le_refl _
  wellFormed h := h

theorem Frame.trans {a b c : Store} (h : Frame own a b) (h' : Frame own b c) : Frame own a c where
  kept := by
    intro address ho cell hc
    obtain ⟨cell', hb, hal⟩ := h.kept ho hc
    obtain ⟨cell'', hc', hal'⟩ := h'.kept ho hb
    exact ⟨cell'', hc', hal.trans hal'⟩
  fresh := by
    intro address hc
    rcases h'.fresh hc with hb | hb
    · exact h.fresh hb
    · exact .inr (Nat.le_trans h.unused hb)
  unused := Nat.le_trans h.unused h'.unused
  wellFormed hwf := h'.wellFormed (h.wellFormed hwf)

theorem Frame.mono (h : Frame own before after) (hsub : ∀ address, own address → own' address) :
    Frame own' before after :=
  ⟨fun ho => h.kept fun hown => ho (hsub _ hown), h.fresh, h.unused, h.wellFormed⟩

/-- What is done to objects that were not there before is no change. -/
theorem Frame.trans_absent {a b c : Store} (h : Frame own a b) (h' : Frame own' b c)
    (habsent : ∀ address, own' address → own address ∨ a.get? address = none) : Frame own a c where
  kept := by
    intro address ho cell hc
    obtain ⟨cell', hb, hal⟩ := h.kept ho hc
    have ho' : ¬own' address := by
      intro hown
      rcases habsent address hown with hown | hnone
      · exact ho hown
      · rw [hnone] at hc
        cases hc
    obtain ⟨cell'', hc', hal'⟩ := h'.kept ho' hb
    exact ⟨cell'', hc', hal.trans hal'⟩
  fresh := by
    intro address hc
    rcases h'.fresh hc with hb | hb
    · exact h.fresh hb
    · exact .inr (Nat.le_trans h.unused hb)
  unused := Nat.le_trans h.unused h'.unused
  wellFormed hwf := h'.wellFormed (h.wellFormed hwf)

/-- A block outside the frame stays. -/
theorem Frame.block (h : Frame own before after) {address : UInt64} (ho : ¬own address)
    {block : Block} {words : Words} (hb : before.get? address = some (.block block words)) :
    after.get? address = some (.block block words) := by
  obtain ⟨cell, hc, hal⟩ := h.kept ho hb
  rw [hc, hal.block_eq]

/-- A generator outside the frame stays. -/
theorem Frame.generator (h : Frame own before after) {address : UInt64} (ho : ¬own address)
    {generator : Generator} (hg : before.get? address = some (.generator generator)) :
    after.get? address = some (.generator generator) := by
  obtain ⟨cell, hc, hal⟩ := h.kept ho hg
  rw [hc, hal.generator_eq]

/-- An array outside the frame keeps its elements. -/
theorem Frame.array (h : Frame own before after) {address : UInt64} (ho : ¬own address)
    {elements : List Int64} {calls : Nat} (ha : before.get? address = some (.array elements calls)) :
    ∃ calls', after.get? address = some (.array elements calls') := by
  obtain ⟨cell, hc, hal⟩ := h.kept ho ha
  obtain ⟨calls', rfl⟩ := hal.array_eq
  exact ⟨calls', hc⟩

/-! ### The accesses -/

/-- Stores that hold the same objects differ in what is counted and logged only. -/
theorem frame_of_cells_eq (hc : after.cells = before.cells) (hu : after.unused = before.unused) :
    Frame own before after := by
  have hget : ∀ address, after.get? address = before.get? address := fun address => by
    unfold get?
    rw [hc]
  refine ⟨?_, ?_, Nat.le_of_eq hu.symm, ?_⟩
  · intro address _ cell h
    exact ⟨cell, by rw [hget, h], .refl cell⟩
  · intro address h
    left
    rwa [← hget]
  · intro hwf
    refine ⟨by rw [hu]; exact hwf.first, fun h => ?_⟩
    rw [hu]
    exact hwf.bounds (by rw [← hget]; exact h)

theorem isSome_get?_set {address other : UInt64} {cell : Cell}
    (h : ((store.set address cell).get? other).isSome) : (store.get? other).isSome := by
  by_cases ho : other = address
  · subst ho
    cases hs : store.get? other with
    | some old => rfl
    | none =>
      -- a change to what is not there changes nothing
      have hnone : ∀ cells : List (UInt64 × Cell), cells.lookup other = none →
          (Keyed.replace other cell cells).lookup other = none := by
        intro cells
        induction cells with
        | nil => intro _; rfl
        | cons entry rest ih =>
          intro hl
          by_cases hk : other = entry.1
          · subst hk; simp at hl
          · have hb : (other == entry.1) = false := by simpa using hk
            rw [List.lookup_cons, hb] at hl
            rw [Keyed.replace, if_neg hk, List.lookup_cons, hb]
            exact ih hl
      have hget : (store.set other cell).get? other = none := hnone store.cells hs
      rw [hget] at h
      cases h
  · rwa [get?_set_of_ne ho] at h

theorem frame_set_of {address : UInt64} {cell : Cell}
    (hown : own address ∨ ∀ old, store.get? address = some old → old.Alike cell) :
    Frame own store (store.set address cell) := by
  refine ⟨?_, fun h => .inl (isSome_get?_set h), Nat.le_refl _, ?_⟩
  · intro other ho old hold
    by_cases heq : other = address
    · subst heq
      rcases hown with hown | halike
      · exact absurd hown ho
      · exact ⟨cell, get?_set_self hold, halike old hold⟩
    · exact ⟨old, by rw [get?_set_of_ne heq, hold], .refl old⟩
  · intro hwf
    refine ⟨hwf.first, fun {other cell'} h => ?_⟩
    have hs : (store.get? other).isSome := isSome_get?_set (by rw [h]; rfl)
    obtain ⟨old, hold⟩ := Option.isSome_iff_exists.mp hs
    exact hwf.bounds hold

/-- Changing an object of the frame. -/
theorem frame_set {address : UInt64} (cell : Cell) (hown : own address) :
    Frame own store (store.set address cell) :=
  frame_set_of (.inl hown)

/-- Counting a step of an array. -/
theorem frame_set_array {address : UInt64} {elements : List Int64} {calls calls' : Nat}
    (h : store.get? address = some (.array elements calls)) :
    Frame own store (store.set address (.array elements calls')) := by
  refine frame_set_of (.inr fun old hold => ?_)
  rw [h] at hold
  cases hold
  exact .array ..

/-- Ending an object of the frame. -/
theorem frame_erase {address : UInt64} (hown : own address) :
    Frame own store (store.erase address) := by
  have hsome : ∀ {other}, ((store.erase address).get? other).isSome →
      other ≠ address ∧ (store.get? other).isSome := by
    intro other h
    by_cases heq : other = address
    · subst heq
      rw [get?_erase_self] at h
      cases h
    · exact ⟨heq, by rwa [get?_erase_of_ne heq] at h⟩
  refine ⟨?_, fun h => .inl (hsome h).2, Nat.le_refl _, ?_⟩
  · intro other ho old hold
    have hne : other ≠ address := fun heq => ho (heq ▸ hown)
    exact ⟨old, by rw [get?_erase_of_ne hne, hold], .refl old⟩
  · intro hwf
    refine ⟨hwf.first, fun {other cell} h => ?_⟩
    obtain ⟨old, hold⟩ := Option.isSome_iff_exists.mp (hsome (by rw [h]; rfl)).2
    exact hwf.bounds hold

/-- What a new object is: it is at an address that was never used, and everything else is as it
was. -/
structure Made (before : Store) (address : UInt64) (cell : Cell) (after : Store) : Prop where
  unused : before.unused ≤ address.toNat
  bound : address.toNat < after.unused
  cells : after.cells = before.cells ++ [(address, cell)]
  calls : after.calls = before.calls
  counters : after.counters = before.counters

namespace Made

variable {address : UInt64} {cell : Cell}

theorem other (h : Made before address cell after) {other : UInt64} (hne : other ≠ address) :
    after.get? other = before.get? other := by
  have hb : (other == address) = false := by simpa using hne
  unfold get?
  rw [h.cells, List.lookup_append]
  simp only [List.lookup_cons, List.lookup_nil, hb, Option.or_none]

theorem absent (h : Made before address cell after) (hwf : before.WellFormed) :
    before.get? address = none := by
  cases hg : before.get? address with
  | none => rfl
  | some old => exact absurd (hwf.bounds hg).2 (Nat.not_lt.mpr h.unused)

theorem found (h : Made before address cell after) (hwf : before.WellFormed) :
    after.get? address = some cell := by
  have hnone : before.cells.lookup address = none := h.absent hwf
  unfold get?
  rw [h.cells, List.lookup_append, hnone]
  simp

theorem wellFormed (h : Made before address cell after) (hwf : before.WellFormed) :
    after.WellFormed := by
  have hfirst := hwf.first
  have hunused := h.unused
  have hbound := h.bound
  refine ⟨by omega, fun {other cell'} hc => ?_⟩
  by_cases heq : other = address
  · subst heq
    omega
  · rw [h.other heq] at hc
    have hb := hwf.bounds hc
    omega

theorem frame (h : Made before address cell after) : Frame own before after where
  kept := by
    intro other _ old hold
    refine ⟨old, ?_, .refl old⟩
    have hold' : before.cells.lookup other = some old := hold
    unfold get?
    rw [h.cells, List.lookup_append, hold']
    rfl
  fresh := by
    intro other hs
    by_cases heq : other = address
    · right; rw [heq]; exact h.unused
    · left; rwa [h.other heq] at hs
  unused := Nat.le_of_lt (Nat.lt_of_le_of_lt h.unused h.bound)
  wellFormed := h.wellFormed

end Made

/-- **A new object** is really new. -/
theorem alloc_spec {block : Block} {cell : Cell} {address : UInt64}
    (hsize : 0 < block.size) (halign : 0 < block.align)
    (h : before.alloc block cell = .ok (address, after)) : Made before address cell after := by
  have hle : before.unused ≤ before.freshAddress block.align := by
    have hmod := Nat.div_add_mod (before.unused + block.align - 1) block.align
    have hlt := Nat.mod_lt (before.unused + block.align - 1) halign
    rw [freshAddress, Nat.mul_comm]
    omega
  unfold alloc allocAt at h
  split at h
  · next hroom =>
    cases h
    have hnat : (UInt64.ofNat (before.freshAddress block.align)).toNat =
        before.freshAddress block.align := by
      rw [UInt64.toNat_ofNat']
      exact Nat.mod_eq_of_lt (Nat.lt_of_le_of_lt (Nat.le_add_right ..) hroom)
    refine ⟨by rw [hnat]; exact hle, ?_, rfl, rfl, rfl⟩
    rw [hnat]
    simp only
    omega
  · cases h

/-- An access that makes an object and then counts or logs something. -/
theorem made_of_map {block : Block} {cell : Cell} {α : Type} {result : α}
    {f : UInt64 × Store → α} (hsize : 0 < block.size)
    (halign : 0 < block.align) (h : (before.alloc block cell).map f = .ok result) :
    ∃ address store, Made before address cell store ∧ result = f (address, store) := by
  cases ha : before.alloc block cell with
  | error fault => rw [ha] at h; cases h
  | ok made =>
    rw [ha] at h
    cases h
    exact ⟨made.1, made.2, alloc_spec hsize halign ha, rfl⟩

/-! ### Objects that stay -/

/-- No object is ended, and a script stays a script. -/
def Keeps (before after : Store) : Prop :=
  ∀ (address : UInt64) (cell : Cell), before.get? address = some cell →
    ∃ cell', after.get? address = some cell' ∧ cell'.isScript = cell.isScript

theorem Keeps.refl (store : Store) : Keeps store store := fun _ cell h => ⟨cell, h, rfl⟩

theorem Keeps.trans {a b c : Store} (h : Keeps a b) (h' : Keeps b c) : Keeps a c := by
  intro address cell hc
  obtain ⟨cell', hc', hsame⟩ := h address cell hc
  obtain ⟨cell'', hc'', hsame'⟩ := h' address cell' hc'
  exact ⟨cell'', hc'', hsame'.trans hsame⟩

/-- Nothing is changed. -/
theorem Frame.keeps (h : Frame (fun _ => False) before after) : Keeps before after := by
  intro address cell hc
  obtain ⟨cell', hc', halike⟩ := h.kept id hc
  exact ⟨cell', hc', halike.isScript_eq⟩

/-- An object is changed and not ended. -/
theorem keeps_set {address : UInt64} {old cell : Cell} (h : store.get? address = some old)
    (hsame : cell.isScript = old.isScript) : Keeps store (store.set address cell) := by
  intro other found hfound
  by_cases heq : other = address
  · subst heq
    rw [h] at hfound
    cases hfound
    exact ⟨cell, get?_set_self h, hsame⟩
  · exact ⟨found, by rw [get?_set_of_ne heq, hfound], rfl⟩

theorem keeps_of_cells_eq (hc : after.cells = before.cells) (hu : after.unused = before.unused) :
    Keeps before after :=
  (frame_of_cells_eq hc hu).keeps

end Store

end PullIter
