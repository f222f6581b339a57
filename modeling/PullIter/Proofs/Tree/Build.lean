import PullIter.Proofs.Host.Handles
import PullIter.Proofs.Tree.Step

/-!
# Building a tree

A combinator is made of values that stand for trees: it gets an iterator of each of them, and a
state of its own that holds these iterators.  It is then an iterator over the tree that has their
trees as its sources.

## Main definitions

* `OwnOrNew` — what was made works on nothing but what it was made of and what is new.

## Main results

* `ValueAt.getiter` — an iterator of a value is an iterator over its tree.
* `iterAt_enumerate`, `iterAt_zip` — a combinator that was made is an iterator over its tree.
-/

namespace PullIter.Tree

open Store (Frame Only)

variable {unit : Compiled} {arrays : List UInt64} {store after : Store}

/-- Nobody. -/
abbrev Nobody : UInt64 → Prop := fun _ => False

/-! ### Kinds -/

mutual

/-- The symbols of a tree are those of built-in objects. -/
theorem symbols_kind : ∀ (tree : Tree), ∀ symbol ∈ tree.kind.symbols,
    ∃ routine : Intrinsic, symbol = routine.name
  | .array _, symbol, hs => by
    have hlist : symbol ∈ [Intrinsic.arrayGetiter.name, Intrinsic.arrayNext.name,
        Intrinsic.arrayRelease.name] := hs
    simp only [List.mem_cons, List.not_mem_nil, or_false] at hlist
    rcases hlist with rfl | rfl | rfl
    · exact ⟨_, rfl⟩
    · exact ⟨_, rfl⟩
    · exact ⟨_, rfl⟩
  | .range _ _, symbol, hs => by
    have hlist : symbol ∈ [Intrinsic.rangeNext.name, Intrinsic.rangeRelease.name] := hs
    simp only [List.mem_cons, List.not_mem_nil, or_false] at hlist
    rcases hlist with rfl | rfl
    · exact ⟨_, rfl⟩
    · exact ⟨_, rfl⟩
  | .generator .., symbol, hs => ⟨.generatorResume, List.mem_singleton.mp hs⟩
  | .enumerate source _, symbol, hs => symbols_kind source symbol hs
  | .zip sources, symbol, hs => symbols_kinds sources symbol hs

theorem symbols_kinds : ∀ (trees : List Tree), ∀ symbol ∈ Kind.symbolsList (kinds trees),
    ∃ routine : Intrinsic, symbol = routine.name
  | [], symbol, hs => by cases hs
  | tree :: trees, symbol, hs => by
    rw [kinds, Kind.symbolsList, List.mem_append] at hs
    rcases hs with hs | hs
    · exact symbols_kind tree symbol hs
    · exact symbols_kinds trees symbol hs

end

/-- No lowered body takes the place of a symbol of a tree. -/
theorem callsLinked (unit : Compiled) (tree : Tree) : unit.CallsLinked tree.kind :=
  Compiled.callsLinked_of_intrinsic tree.symbols_kind

/-- Only an array is no iterator yet. -/
theorem getiterSymbol?_kind {tree : Tree} (h : tree.isArray = false) :
    tree.kind.getiterSymbol? = none := by
  cases tree with
  | array => cases h
  | range => rfl
  | generator => rfl
  | enumerate => rfl
  | zip => rfl

/-! ### The objects of what was made -/

/-- A live object is at an address that was handed out. -/
theorem lt_unused (hwf : store.WellFormed) {a : UInt64} (h : (store.get? a).isSome) :
    a.toNat < store.unused := by
  obtain ⟨cell, hc⟩ := Option.isSome_iff_exists.mp h
  exact (hwf.bounds hc).2

/-- Some objects are among those that were there to be used up, or new. -/
def OwnOrNew (store : Store) (own made : List UInt64) : Prop :=
  ∀ a ∈ made, a ∈ own ∨ store.unused ≤ a.toNat

namespace OwnOrNew

variable {own made own' made' : List UInt64} {a : UInt64}

theorem refl (store : Store) (own : List UInt64) : OwnOrNew store own own := fun _ hm => .inl hm

theorem nil (store : Store) (own : List UInt64) : OwnOrNew store own [] := nofun

theorem cons (hnew : store.unused ≤ a.toNat) (h : OwnOrNew store own made) :
    OwnOrNew store own (a :: made) := by
  intro b hm
  rcases List.mem_cons.mp hm with rfl | hm
  · exact .inr hnew
  · exact h b hm

theorem append (h : OwnOrNew store own made) (h' : OwnOrNew store own' made') :
    OwnOrNew store (own ++ own') (made ++ made') := by
  intro a hm
  rcases List.mem_append.mp hm with hm | hm
  · exact (h a hm).imp_left (List.mem_append_left _)
  · exact (h' a hm).imp_left (List.mem_append_right _)

/-- What is new later on is new. -/
theorem of_later (h : OwnOrNew after own made) (hle : store.unused ≤ after.unused) :
    OwnOrNew store own made := fun a hm => (h a hm).imp_right (Nat.le_trans hle)

/-- What was there before and was not to be used up is left alone. -/
theorem not_mem (h : OwnOrNew store own made) (hlt : a.toNat < store.unused) (ha : a ∉ own) :
    a ∉ made := fun hm => (h a hm).elim ha (Nat.not_le.mpr hlt)

end OwnOrNew

/-! ### Making an iterator -/

/-- **An iterator of a value** is an iterator over its tree. -/
theorem ValueAt.getiter (hr : unit.RunsRuntime) (hwf : store.WellFormed) {tree : Tree}
    {address iterator : UInt64} {own : List UInt64} (h : ValueAt arrays store tree address own)
    (hg : Exec.getiter unit.provided tree.kind address store = .ok (iterator, after)) :
    Frame Nobody store after ∧ ∃ made, IterAt arrays after tree iterator made ∧
      OwnOrNew store own made := by
  cases h with
  | @array address elements calls source found short =>
    have hcall : Exec.getiter unit.provided Kind.array address store =
        (Provider.intrinsic .arrayGetiter).linkedGetiter address store :=
      Compiled.provided_getiter hr .arrayGetiter address store
    rw [kind, hcall, Provider.linkedGetiter, Provider.getiter, Store.arrayGetiter] at hg
    cases ha : store.alloc ⟨16, 8⟩ (.block ⟨16, 8⟩ [address, 0]) with
    | error fault => rw [ha] at hg; cases hg
    | ok made =>
      obtain ⟨fresh, mid⟩ := made
      rw [ha] at hg
      cases hg
      have hmade : Store.Made store iterator (.block ⟨16, 8⟩ [address, 0]) mid :=
        Store.alloc_spec (by decide) (by decide) ha
      have hframe : Frame Nobody store mid := hmade.frame
      obtain ⟨calls', hfound⟩ := hframe.array id found
      refine ⟨hframe.trans (Store.frame_of_cells_eq rfl rfl), [iterator], ?_, ?_⟩
      · exact .array (hmade.found hwf) source hfound short rfl
      · exact (OwnOrNew.nil _ _).cons hmade.unused
  | iterator held other =>
    rw [Exec.getiter, getiterSymbol?_kind other] at hg
    cases hg
    exact ⟨Frame.refl _ _, own, held, .refl _ _⟩

/-- An iterator can be made as long as there is room for one. -/
theorem ValueAt.exists_getiter (hr : unit.RunsRuntime) {tree : Tree} {address : UInt64}
    {own : List UInt64} (h : ValueAt arrays store tree address own)
    (room : tree.isArray = true → store.unused + 32 ≤ UInt64.size) :
    ∃ made, Exec.getiter unit.provided tree.kind address store = .ok made := by
  cases h with
  | @array address elements calls source found short =>
    have hcall : Exec.getiter unit.provided Kind.array address store =
        (Provider.intrinsic .arrayGetiter).linkedGetiter address store :=
      Compiled.provided_getiter hr .arrayGetiter address store
    have hfresh : store.freshAddress 8 + 16 < UInt64.size := by
      have hle : store.freshAddress 8 ≤ store.unused + 8 - 1 := Nat.div_mul_le_self _ _
      have hroom := room rfl
      omega
    rw [kind, hcall, Provider.linkedGetiter, Provider.getiter, Store.arrayGetiter, Store.alloc,
      Store.allocAt, if_pos hfresh]
    exact ⟨_, rfl⟩
  | iterator held other =>
    rw [Exec.getiter, getiterSymbol?_kind other]
    exact ⟨_, rfl⟩

/-! ### Making a combinator -/

/-- Storage for a state is a block of its own. -/
theorem block_of_linkedAlloc (hwf : store.WellFormed) {layout : Layout} {state : UInt64}
    (h : (Provider.intrinsic .alloc).linkedAlloc layout store = .ok (state, after)) :
    ∃ block, after.get? state = some (.block block []) ∧ Frame Nobody store after ∧
      store.get? state = none ∧ store.unused ≤ state.toNat := by
  obtain ⟨block, made, -, hmade, rfl⟩ := Provider.linkedAlloc_eq_ok h
  exact ⟨block, hmade.found hwf, hmade.frame.trans (Store.frame_of_cells_eq rfl rfl),
    hmade.absent hwf, hmade.unused⟩

/-- An iterator does not work on an object that is not there. -/
theorem IterAt.absent {tree : Tree} {iterator a : UInt64} {own : List UInt64}
    (h : IterAt arrays store tree iterator own) (ha : store.get? a = none) : a ∉ own := by
  intro hm
  have hlive := (h.live a hm).1
  rw [ha] at hlive
  cases hlive

/-- **An enumerate that was made** is an iterator over its tree. -/
theorem iterAt_enumerate (hr : unit.RunsRuntime) (hwf : store.WellFormed) {source : Tree}
    {start : Start} {address state : UInt64}
    {own : List UInt64} {args : List Scalar} {record : List UInt8}
    (h : ValueAt arrays store source address own)
    (hsource : Exec.loadArg (Layout.enumerateArgs targetPointerBytes args) 0 record = .ok address)
    (hstart : Exec.loadStart args record = .ok start.count)
    (hc : Exec.construct unit.provided (.enumerate source.kind) args record store =
      .ok (state, after)) :
    Frame Nobody store after ∧ ∃ made, IterAt arrays after (.enumerate source start) state made ∧
      OwnOrNew store own made := by
  obtain ⟨found, count, iterator, mid, empty, counted, hfound, hcount, hg, hl, hpoke, hstore⟩ :=
    Exec.exists_of_construct_enumerate hc
  cases hfound.symm.trans hsource
  cases hcount.symm.trans hstart
  obtain ⟨hframe, inner, hiter, hinner⟩ := h.getiter hr hwf hg
  rw [Compiled.provided_alloc hr] at hl
  obtain ⟨block, hcell, halloc, habsent, hunused⟩ :=
    block_of_linkedAlloc (hframe.wellFormed hwf) hl
  obtain ⟨rfl, rfl, hcell'⟩ := Exec.eq_of_poke_enumerate hcell hpoke hstore
  have hset : Frame (Only state) empty ((empty.set state
      (.block block (Words.poke [] Layout.countIndex start.count.toUInt64))).set state
        (.block block ((Words.poke [] Layout.countIndex start.count.toUInt64).poke
          Layout.sourceIndex iterator))) :=
    (Store.frame_set _ (Store.only_self state)).trans (Store.frame_set _ (Store.only_self state))
  have hmake := halloc.trans_absent hset fun a heq => .inr (by rw [show a = state from heq]; exact habsent)
  have hstate := hiter.absent habsent
  refine ⟨hframe.trans hmake, state :: inner, .enumerate (Store.get?_set_self hcell') ?_ ?_ hstate,
    hinner.cons (Nat.le_trans hframe.unused hunused)⟩
  · rw [Words.peek_poke_of_ne (by decide), Words.peek_poke_self]
    rfl
  · rw [Words.peek_poke_self]
    exact hiter.frame hmake (fun _ _ => id) fun _ _ => id

/-- The iterators of some values, stored into a state from an index on. -/
theorem itersAt_storeSources (hr : unit.RunsRuntime) {layout : Layout} {record : List UInt8}
    {state : UInt64} {block : Block} {objects : List (Tree × UInt64)} :
    ∀ {store : Store} {words : Words} {index : Nat} {own : List UInt64}, store.WellFormed →
      ArraysAt arrays store → Held arrays store objects own →
      store.get? state = some (.block block words) → state ∉ own →
      (∀ i object, objects[i]? = some object →
        Exec.loadArg layout (index + i) record = .ok object.2) →
      Exec.storeSources unit.provided layout record state (kinds (objects.map Prod.fst)) index
        store = .ok after →
      Frame (Only state) store after ∧ ∃ words' made,
        after.get? state = some (.block block words') ∧
        (∀ i < index, words'.peek i = words.peek i) ∧
        ItersAt arrays after (objects.map Prod.fst) words' index made ∧
        OwnOrNew store own made := by
  induction objects with
  | nil =>
    intro store words index own _ _ _ hcell _ _ hs
    cases hs
    exact ⟨Frame.refl _ _, words, [], hcell, fun _ _ => rfl, .nil, .nil _ _⟩
  | cons object objects ih =>
    intro store words index own hwf ha hheld hcell hstate hargs hs
    obtain ⟨tree, address⟩ := object
    cases hheld with
    | @cons _ _ _ own own' first rest apart =>
    rw [List.map_cons, kinds] at hs
    obtain ⟨found, iterator, mid, stored, hfound, hg, hstored, hs⟩ :=
      Exec.exists_of_storeSources_cons hs
    cases hfound.symm.trans (hargs 0 _ rfl)
    obtain ⟨hframe, inner, hiter, hinner⟩ := first.getiter hr hwf hg
    have hcell' := hframe.block id hcell
    rw [Store.poke_of_get? hcell'] at hstored
    cases hstored
    have hset : Frame (Only state) mid (mid.set state (.block block (words.poke index iterator))) :=
      Store.frame_set _ (Store.only_self state)
    have hpoke : Frame (Only state) store _ := (hframe.mono fun _ hm => hm.elim).trans hset
    have hwf' := hframe.wellFormed hwf
    -- the state is an object of its own
    have harrays := Store.not_only_of_not_mem (ha.not_mem_of_block hcell)
    have hother := Store.not_only_of_not_mem fun hm => hstate (List.mem_append_right _ hm)
    have hown := Store.not_only_of_not_mem (hinner.not_mem (lt_unused hwf (by rw [hcell]; rfl))
      fun hm => hstate (List.mem_append_left _ hm))
    obtain ⟨hrest, words', rest', hcellLast, hsame, hiters, hrest'⟩ := ih (hset.wellFormed hwf')
      (ha.frame hpoke harrays) (rest.frame hpoke harrays hother) (Store.get?_set_self hcell')
      (fun hm => hstate (List.mem_append_right _ hm))
      (fun i object hi => by rw [Nat.add_assoc, Nat.add_comm 1 i]; exact hargs (i + 1) object hi) hs
    obtain ⟨hpeek, hbefore⟩ := Exec.peek_of_poked hsame
    -- the new iterator is apart from the other values, and from what is made of them later
    have hapart : ∀ a ∈ inner, a ∉ own' := fun a hm hm' =>
      hinner.not_mem (lt_unused hwf (rest.live a hm').1) (fun hm => apart a hm hm') hm
    refine ⟨hpoke.trans hrest, words', inner ++ rest', hcellLast, hbefore, .cons ?_ hiters
      fun a hm => hrest'.not_mem (lt_unused hwf' (hiter.live a hm).1) (hapart a hm),
      hinner.append (hrest'.of_later hframe.unused)⟩
    rw [hpeek]
    exact (hiter.frame hset harrays hown).frame hrest harrays hown

/-- **A zip that was made** is an iterator over its tree. -/
theorem iterAt_zip (hr : unit.RunsRuntime) (hwf : store.WellFormed) (ha : ArraysAt arrays store)
    {objects : List (Tree × UInt64)} {state : UInt64} {own : List UInt64} {args : List Scalar}
    {record : List UInt8} (h : Held arrays store objects own)
    (hargs : ∀ i object, objects[i]? = some object →
      Exec.loadArg (Layout.zipArgs targetPointerBytes args) i record = .ok object.2)
    (hc : Exec.construct unit.provided (.zip (kinds (objects.map Prod.fst))) args record store =
      .ok (state, after)) :
    Frame Nobody store after ∧
      ∃ made, IterAt arrays after (.zip (objects.map Prod.fst)) state made ∧
        OwnOrNew store own made := by
  obtain ⟨empty, hl, hs⟩ := Exec.exists_of_construct_zip hc
  rw [Compiled.provided_alloc hr] at hl
  obtain ⟨block, hcell, halloc, habsent, hunused⟩ := block_of_linkedAlloc hwf hl
  have hwf' := halloc.wellFormed hwf
  have hstate : state ∉ own := by
    intro hm
    have hlive := (h.live state hm).1
    rw [habsent] at hlive
    cases hlive
  have hheld := h.frame halloc (fun _ _ => id) fun _ _ => id
  obtain ⟨hrest, words, made, hcellLast, -, hiters, hmade⟩ := itersAt_storeSources hr hwf'
    (ha.frame halloc fun _ _ => id) hheld hcell hstate
    (fun i object hi => by rw [Nat.zero_add]; exact hargs i object hi) hs
  have hstate' := hmade.not_mem (lt_unused hwf' (by rw [hcell]; rfl)) hstate
  refine ⟨halloc.trans_absent hrest fun a heq => .inr ?_, state :: made,
    .zip hcellLast hiters hstate', (hmade.of_later halloc.unused).cons hunused⟩
  rw [show a = state from heq]
  exact habsent

end PullIter.Tree
