import PullIter.Proofs.Layout.Parts
import PullIter.Proofs.Tree.Build

/-!
# Values that have been made

The leaves of a tree are made one by one, and combinators are made of what has been made before.
An array may be the source of any number of combinators, and every other value is used up by the
one that it is a source of.  Others may use the store at any time, as long as they leave these
objects alone.

## Main definitions

* `Grown` — some values that have been made and not used up, and what belongs to others.
* `Kept` — these values stand for their trees.

## Main results

* `Grown.kept` — **values that have been made stand for their trees.**
-/

namespace PullIter.Tree

open Store (Frame Only)

/-- Some values that have been made and not used up, each with its tree, in a store where some
addresses belong to others. -/
inductive Grown (unit : Compiled) : (UInt64 → Prop) → List (Tree × UInt64) → Store → Prop
  /-- Everything that is there before the first value belongs to others. -/
  | start {store : Store} (wellFormed : store.WellFormed) :
      Grown unit (fun a => a.toNat < store.unused) [] store
  | array {others : UInt64 → Prop} {objects : List (Tree × UInt64)} {store after : Store}
      {address : UInt64} (elements : List Int64) (grown : Grown unit others objects store)
      (made : store.newArray elements = .ok (address, after)) :
      Grown unit others ((.array elements, address) :: objects) after
  | range {others : UInt64 → Prop} {objects : List (Tree × UInt64)} {store after : Store}
      {address : UInt64} (start stop : Int64) (grown : Grown unit others objects store)
      (made : store.newRange start stop = .ok (address, after)) :
      Grown unit others ((.range start stop, address) :: objects) after
  | generator {others : UInt64 → Prop} {objects : List (Tree × UInt64)} {store after : Store}
      {address : UInt64} (name : String) (yields : Yields) (failure : Option Int32)
      (grown : Grown unit others objects store)
      (made : store.newGenerator (.start yields failure) = .ok (address, after)) :
      Grown unit others ((.generator name yields failure, address) :: objects) after
  | enumerate {others : UInt64 → Prop} {objects : List (Tree × UInt64)} {store after : Store}
      {source : Tree} {address : UInt64} {value : Constructed} (start : Start)
      (grown : Grown unit others ((source, address) :: objects) store)
      (made : unit.hostConstruct (.enumerate source.kind) (.ptr address :: start.args) store =
        .ok (.ok value, after)) :
      Grown unit others ((.enumerate source start, value.address) :: objects) after
  | zip {others : UInt64 → Prop} {sources objects : List (Tree × UInt64)} {store after : Store}
      {value : Constructed} (grown : Grown unit others (sources ++ objects) store)
      (made : unit.hostConstruct (.zip (kinds (sources.map Prod.fst)))
        (sources.map fun source => .ptr source.2) store = .ok (.ok value, after)) :
      Grown unit others ((.zip (sources.map Prod.fst), value.address) :: objects) after
  /-- An array is not used up. -/
  | share {others : UInt64 → Prop} {objects : List (Tree × UInt64)} {store : Store}
      {elements : List Int64} {address : UInt64}
      (grown : Grown unit others ((.array elements, address) :: objects) store) :
      Grown unit others ((.array elements, address) :: (.array elements, address) :: objects) store
  | perm {others : UInt64 → Prop} {objects objects' : List (Tree × UInt64)} {store : Store}
      (grown : Grown unit others objects store) (perm : objects.Perm objects') :
      Grown unit others objects' store
  /-- Others may work on what belongs to them, and what they make belongs to them as well. -/
  | elsewhere {others theirs : UInt64 → Prop} {objects : List (Tree × UInt64)}
      {store after : Store} (grown : Grown unit others objects store)
      (frame : Frame theirs store after) (sub : ∀ a, theirs a → others a) :
      Grown unit (fun a => others a ∨ store.unused ≤ a.toNat ∧ a.toNat < after.unused) objects after

/-- Some values stand for their trees, and nothing of them belongs to others. -/
structure Kept (others : UInt64 → Prop) (objects : List (Tree × UInt64)) (store : Store) :
    Prop where
  wellFormed : store.WellFormed
  bound : ∀ a, others a → a.toNat < store.unused
  held : ∃ arrays own, ArraysAt arrays store ∧ Held arrays store objects own ∧
    (∀ a ∈ arrays, ¬others a) ∧ ∀ a ∈ own, ¬others a

namespace Kept

variable {others : UInt64 → Prop} {objects : List (Tree × UInt64)} {store after : Store}

theorem start (h : store.WellFormed) : Kept (fun a => a.toNat < store.unused) [] store := by
  refine ⟨h, fun a ha => ha, [], [], fun a hm => ?_, .nil, fun a hm => ?_, fun a hm => ?_⟩
  · cases hm
  · cases hm
  · cases hm

/-- A value that is made of some others takes their place, if it works on nothing but what they
work on and what is new. -/
theorem replace (sources : List (Tree × UInt64)) {tree : Tree} {address : UInt64}
    (h : Kept others (sources ++ objects) store) (other : tree.isArray = false)
    (hmade : ∀ arrays own, ArraysAt arrays store → Held arrays store sources own →
      Frame Nobody store after ∧ ∃ made, IterAt arrays after tree address made ∧
        OwnOrNew store own made) :
    Kept others ((tree, address) :: objects) after := by
  obtain ⟨arrays, own, ha, hheld, harrays, hown⟩ := h.held
  obtain ⟨first, last, hfirst, hlast, hdisjoint, hmem⟩ := hheld.split
  obtain ⟨hf, made, hiter, hfrom⟩ := hmade arrays first ha hfirst
  refine ⟨hf.wellFormed h.wellFormed, fun a ho => ?_, arrays, made ++ last, ?_, ?_, harrays, ?_⟩
  · exact Nat.lt_of_lt_of_le (h.bound a ho) hf.unused
  · exact ha.frame hf fun _ _ => id
  · refine .cons (.iterator hiter other) (hlast.frame hf (fun _ _ => id) fun _ _ => id) ?_
    exact fun a hm hm' => hfrom.not_mem (lt_unused h.wellFormed (hlast.live a hm').1)
      (fun hm => hdisjoint a hm hm') hm
  · intro a hm ho
    rcases List.mem_append.mp hm with hm | hm
    · exact hfrom.not_mem (h.bound a ho) (fun hm => hown a ((hmem a).mpr (.inl hm)) ho) hm
    · exact hown a ((hmem a).mpr (.inr hm)) ho

/-- A new object that is an iterator over a tree. -/
theorem leaf {tree : Tree} {address : UInt64} {cell : Cell} {mid : Store}
    (h : Kept others objects store) (hmade : Store.Made store address cell mid)
    (hf : Frame Nobody mid after) (other : tree.isArray = false)
    (hiter : ∀ arrays, IterAt arrays after tree address [address]) :
    Kept others ((tree, address) :: objects) after := by
  exact replace [] h other fun arrays own _ _ =>
    ⟨hmade.frame.trans hf, [address], hiter arrays, (OwnOrNew.nil _ _).cons hmade.unused⟩

theorem array {elements : List Int64} {address : UInt64} (h : Kept others objects store)
    (hm : store.newArray elements = .ok (address, after)) :
    Kept others ((.array elements, address) :: objects) after := by
  unfold Store.newArray at hm
  split at hm
  · cases hm
  · next hroom =>
    obtain ⟨fresh, mid, hmade, heq⟩ := Store.made_of_map (by decide) (by decide) hm
    cases heq
    obtain ⟨arrays, own, ha, hheld, harrays, hown⟩ := h.held
    have hf : Frame Nobody store _ := hmade.frame.trans (Store.frame_count mid .array 1)
    -- the array is new, so it belongs to nobody else, and it is one of the arrays from now on
    have hfound : (mid.count .array 1).get? address = some (.array elements 0) :=
      hmade.found h.wellFormed
    have hshort : elements.length < UInt64.size := by
      have hmax : maxBlockSize < UInt64.size := by decide
      omega
    refine ⟨hf.wellFormed h.wellFormed, fun a ho => Nat.lt_of_lt_of_le (h.bound a ho) hf.unused,
      address :: arrays, [] ++ own, ?_, .cons (.array (List.mem_cons_self ..) hfound hshort) ?_ ?_,
      ?_, hown⟩
    · intro a hm
      rcases List.mem_cons.mp hm with rfl | hm
      · exact ⟨elements, 0, hfound⟩
      · exact ha.frame hf (fun _ _ => id) a hm
    · exact (hheld.frame hf (fun _ _ => id) fun _ _ => id).mono fun a hm => List.mem_cons_of_mem _ hm
    · intro a hm
      cases hm
    · intro a hm ho
      rcases List.mem_cons.mp hm with rfl | hm
      · exact Nat.not_lt.mpr hmade.unused (h.bound a ho)
      · exact harrays a hm ho

theorem share {elements : List Int64} {address : UInt64}
    (h : Kept others ((.array elements, address) :: objects) store) :
    Kept others ((.array elements, address) :: (.array elements, address) :: objects) store := by
  obtain ⟨arrays, own, ha, hheld, harrays, hown⟩ := h.held
  refine ⟨h.wellFormed, h.bound, arrays, own, ha, ?_, harrays, hown⟩
  cases hheld with
  | cons first rest apart =>
    cases first with
    | array source found short =>
      refine .cons (.array source found short) (.cons (.array source found short) rest apart) ?_
      intro a hm
      cases hm
    | iterator _ other => cases other

theorem perm {objects' : List (Tree × UInt64)} (h : Kept others objects store)
    (hp : objects.Perm objects') : Kept others objects' store := by
  obtain ⟨arrays, own, ha, hheld, harrays, hown⟩ := h.held
  obtain ⟨own', hheld', hmem⟩ := hheld.perm hp
  exact ⟨h.wellFormed, h.bound, arrays, own', ha, hheld', harrays,
    fun a hm => hown a ((hmem a).mp hm)⟩

theorem elsewhere {theirs : UInt64 → Prop} (h : Kept others objects store)
    (hf : Frame theirs store after) (hsub : ∀ a, theirs a → others a) :
    Kept (fun a => others a ∨ store.unused ≤ a.toNat ∧ a.toNat < after.unused) objects after := by
  obtain ⟨arrays, own, ha, hheld, harrays, hown⟩ := h.held
  have harrays' : ∀ a ∈ arrays, ¬theirs a := fun a hm ht => harrays a hm (hsub a ht)
  have hown' : ∀ a ∈ own, ¬theirs a := fun a hm ht => hown a hm (hsub a ht)
  refine ⟨hf.wellFormed h.wellFormed, fun a ho => ?_, arrays, own, ha.frame hf harrays',
    hheld.frame hf harrays' hown', fun a hm ho => ?_, fun a hm ho => ?_⟩
  · rcases ho with ho | ho
    · exact Nat.lt_of_lt_of_le (h.bound a ho) hf.unused
    · exact ho.2
  · rcases ho with ho | ho
    · exact harrays a hm ho
    · obtain ⟨elements, calls, hg⟩ := ha a hm
      exact Nat.not_lt.mpr ho.1 (lt_unused h.wellFormed (by rw [hg]; rfl))
  · rcases ho with ho | ho
    · exact hown a hm ho
    · exact Nat.not_lt.mpr ho.1 (lt_unused h.wellFormed (hheld.live a hm).1)

end Kept

/-! ### Arguments -/

/-- The source of an enumerate is found in the argument record, whatever the start. -/
theorem loadSource_record (start : Start) (address : UInt64) :
    Exec.loadArg (Layout.enumerateArgs targetPointerBytes (Scalar.ptr :: start.args.map Arg.kind)) 0
      (Arg.record (Layout.enumerateArgs targetPointerBytes (Scalar.ptr :: start.args.map Arg.kind))
        (.ptr address :: start.args)) = .ok address := by
  have hparts : (Layout.enumerateArgParts targetPointerBytes
      (Scalar.ptr :: start.args.map Arg.kind)).map Prod.snd =
        (Arg.ptr address :: start.args).map fun arg => Layout.ofScalar 8 arg.kind := by
    cases start <;> rfl
  have harg := @Exec.loadArg_record _ (.ptr address :: start.args) hparts 0 (.ptr address) rfl
  exact harg.trans (congrArg Except.ok (Layout.wordOf_toBytes address))

/-- Where the count starts is found in the argument record. -/
theorem loadStart_record (start : Start) (address : UInt64) :
    Exec.loadStart (Scalar.ptr :: start.args.map Arg.kind)
      (Arg.record (Layout.enumerateArgs targetPointerBytes (Scalar.ptr :: start.args.map Arg.kind))
        (.ptr address :: start.args)) = .ok start.count := by
  cases start with
  | absent => rfl
  | bool b =>
    have harg : Exec.loadArg (Layout.enumerateArgs targetPointerBytes [.ptr, .bool]) 1
        (Arg.record (Layout.enumerateArgs targetPointerBytes [.ptr, .bool])
          [.ptr address, .bool b]) = .ok (wordOf (Arg.bytes (.bool b))) :=
      Exec.loadArg_record rfl rfl
    simp only [Exec.loadStart, Start.args, List.map_cons, List.map_nil, Arg.kind,
      List.getElem?_cons_succ, List.getElem?_cons_zero, harg]
    cases b <;> rfl
  | i32 n =>
    have harg : Exec.loadArg (Layout.enumerateArgs targetPointerBytes [.ptr, .i32]) 1
        (Arg.record (Layout.enumerateArgs targetPointerBytes [.ptr, .i32])
          [.ptr address, .i32 n]) = .ok (wordOf (Arg.bytes (.i32 n))) :=
      Exec.loadArg_record rfl rfl
    have hword : (wordOf (Arg.bytes (.i32 n))).toUInt32.toInt32 = n := by
      have hlt : n.toUInt32.toNat < 256 ^ 4 := n.toUInt32.toNat_lt
      rw [Arg.bytes, wordOf, ofBytes_toBytes, Nat.mod_eq_of_lt hlt]
      have hround : (UInt64.ofNat n.toUInt32.toNat).toUInt32 = n.toUInt32 := by
        apply UInt32.toNat_inj.mp
        rw [UInt64.toNat_toUInt32, UInt64.toNat_ofNat_of_lt' (Nat.lt_trans hlt (by decide))]
        exact Nat.mod_eq_of_lt hlt
      rw [hround, Int32.toInt32_toUInt32]
    simp only [Exec.loadStart, Start.args, List.map_cons, List.map_nil, Arg.kind,
      List.getElem?_cons_succ, List.getElem?_cons_zero, harg]
    exact congrArg (fun n : Int32 => Except.ok n.toInt64) hword
  | i64 n =>
    have harg : Exec.loadArg (Layout.enumerateArgs targetPointerBytes [.ptr, .i64]) 1
        (Arg.record (Layout.enumerateArgs targetPointerBytes [.ptr, .i64])
          [.ptr address, .i64 n]) = .ok (wordOf (Arg.bytes (.i64 n))) :=
      Exec.loadArg_record rfl rfl
    have hword : wordOf (Arg.bytes (.i64 n)) = n.toUInt64 := Layout.wordOf_toBytes n.toUInt64
    simp only [Exec.loadStart, Start.args, List.map_cons, List.map_nil, Arg.kind,
      List.getElem?_cons_succ, List.getElem?_cons_zero, harg, hword]
    rfl

/-! ### All values -/

variable {unit : Compiled} {options : Options} {externals : List (String × Provider)}
  {requests : List Request}

theorem Kept.enumerate (h : unit.Finished options externals requests) (hr : unit.RunsRuntime)
    {others : UInt64 → Prop} {objects : List (Tree × UInt64)} {store after : Store} {source : Tree}
    {address : UInt64} {start : Start} {value : Constructed}
    (hk : Kept others ((source, address) :: objects) store)
    (hm : unit.hostConstruct (.enumerate source.kind) (.ptr address :: start.args) store =
      .ok (.ok value, after)) :
    Kept others ((.enumerate source start, value.address) :: objects) after := by
  obtain ⟨-, -, layout, record, hlayout, hpack, hc⟩ := Compiled.hostConstruct_eq_ok h
    (callsLinked unit (.enumerate source start)) hm
  cases hlayout
  rw [Arg.eq_record_of_pack hpack] at hc
  have hsource := loadSource_record start address
  have hstart := loadStart_record start address
  refine Kept.replace [(source, address)] hk rfl fun arrays own _ hheld => ?_
  cases hheld with
  | cons first rest _ =>
    cases rest with
    | nil =>
      rw [List.append_nil]
      exact iterAt_enumerate hr hk.wellFormed first hsource hstart hc

theorem Kept.zip (h : unit.Finished options externals requests) (hr : unit.RunsRuntime)
    {others : UInt64 → Prop} {sources objects : List (Tree × UInt64)} {store after : Store}
    {value : Constructed} (hk : Kept others (sources ++ objects) store)
    (hm : unit.hostConstruct (.zip (kinds (sources.map Prod.fst)))
      (sources.map fun source => .ptr source.2) store = .ok (.ok value, after)) :
    Kept others ((.zip (sources.map Prod.fst), value.address) :: objects) after := by
  obtain ⟨-, -, layout, record, hlayout, hpack, hc⟩ := Compiled.hostConstruct_eq_ok h
    (callsLinked unit (.zip (sources.map Prod.fst))) hm
  cases hlayout
  rw [Arg.eq_record_of_pack hpack] at hc
  have hargs : ∀ i object, sources[i]? = some object → Exec.loadArg (Layout.zipArgs
      targetPointerBytes ((sources.map fun source => Arg.ptr source.2).map Arg.kind)) i
      (Arg.record (Layout.zipArgs targetPointerBytes
        ((sources.map fun source => Arg.ptr source.2).map Arg.kind))
        (sources.map fun source => .ptr source.2)) = .ok object.2 := by
    intro i object hi
    have hget : (sources.map Prod.snd)[i]? = some object.2 := by
      rw [List.getElem?_map, hi]
      rfl
    have hload := Exec.loadArg_zip (sources.map Prod.snd) hget
    rw [List.map_map, List.map_map] at hload
    rw [List.map_map]
    exact hload
  exact Kept.replace sources hk rfl fun arrays own ha hheld =>
    iterAt_zip hr hk.wellFormed ha hheld hargs hc

/-- **Values that have been made** stand for their trees. -/
theorem Grown.kept (h : unit.Finished options externals requests) (hr : unit.RunsRuntime)
    {others : UInt64 → Prop} {objects : List (Tree × UInt64)} {store : Store}
    (hg : Grown unit others objects store) : Kept others objects store := by
  induction hg with
  | start wellFormed => exact .start wellFormed
  | array elements _ made ih => exact ih.array made
  | @range _ _ _ _ address start stop _ made ih =>
    obtain ⟨fresh, mid, hmade, heq⟩ := Store.made_of_map (by decide) (by decide) made
    cases heq
    have hcell : (mid.count .rangeIter 1).get? address = _ := hmade.found ih.wellFormed
    exact ih.leaf hmade (Store.frame_count mid .rangeIter 1) rfl fun _ => .range hcell rfl rfl
  | generator name yields failure _ made ih =>
    have hmade := Store.alloc_spec (by decide) (by decide) made
    exact ih.leaf hmade (Frame.refl _ _) rfl fun _ => .generator (hmade.found ih.wellFormed)
  | enumerate start _ made ih => exact ih.enumerate h hr made
  | zip _ made ih => exact ih.zip h hr made
  | share _ ih => exact ih.share
  | perm _ perm ih => exact ih.perm perm
  | elsewhere _ frame sub ih => exact ih.elsewhere frame sub

end PullIter.Tree
