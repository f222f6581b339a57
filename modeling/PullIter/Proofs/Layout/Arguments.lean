import PullIter.Proofs.Layout.Encoding
import PullIter.Proofs.Layout.Parts

/-!
# Argument records

The host puts arguments into the words of a record, and nothing of that knows the decoder of yielded
values.  Still the two agree: a record of arguments of the right kinds is decoded to the arguments.
Arguments of other kinds are refused, and nothing is a fault.

## Main definitions

* `Arg.value` — the value that an argument is decoded to.
* `Layout.ScalarRecord` — the records of named scalars that can be laid out for eight-byte pointers.
* `Arg.Packed` — the bytes hold the arguments, in whole words, and zeros everywhere else.

## Main results

* `Arg.recovers_record` — a record of the kinds of some arguments recovers them.
* `Arg.packed_record` — what is packed holds the arguments.
* `Arg.check_eq_ok`, `Arg.check_eq_mismatch` — which arguments fit.
* `Arg.pack_roundTrips` — **argument records round-trip**.
-/

namespace PullIter

namespace Arg

/-- The value that an argument is decoded to. -/
def value : Arg → Value
  | ptr address => .ptr address
  | i64 n => .i64 n
  | i32 n => .i32 n
  | bool b => .bool b
  | f64 bits => .f64 bits

theorem hasType_value (arg : Arg) : arg.value.HasType 8 (.scalar arg.kind) := by
  cases arg with
  | ptr address => exact .ptr (show address.toNat < 256 ^ 8 from address.toNat_lt)
  | i64 n => exact .i64 n
  | i32 n => exact .i32 n
  | bool b => exact .bool b
  | f64 bits => exact .f64 bits

/-- The packer and the decoder agree on the bytes of a scalar. -/
theorem scalars_value (arg : Arg) : arg.value.scalars 8 = [arg.bytes] := by
  cases arg <;> rfl

end Arg

namespace Layout

/-- Scalars of some kinds as the parts of a record, on a target with eight-byte pointers. -/
def OfKinds (parts : List (String × Layout)) (kinds : List Scalar) : Prop :=
  List.Forall₂ (fun part kind => part.2 = ofScalar 8 kind) parts kinds

theorem ofKinds_scalarParts (fields : List (String × Scalar)) :
    OfKinds (scalarParts 8 fields) (fields.map Prod.snd) := by
  rw [OfKinds, scalarParts, List.forall₂_map_left_iff, List.forall₂_map_right_iff]
  exact List.forall₂_same.mpr fun field _ => rfl

theorem OfKinds.place {parts : List (String × Layout)} {kinds : List Scalar}
    (h : OfKinds parts kinds) :
    List.Forall₂ (fun field kind => field.layout = ofScalar 8 kind) (Layout.place 0 parts) kinds :=
  forall₂_place (R := fun layout kind => layout = ofScalar 8 kind) h 0

theorem OfKinds.regular {parts : List (String × Layout)} {kinds : List Scalar}
    (h : OfKinds parts kinds) : ∀ part ∈ parts, part.2.Regular 8 := by
  induction h with
  | nil =>
    intro part hp
    cases hp
  | @cons part kind parts kinds hpart _ ih =>
    exact List.forall_mem_cons.mpr ⟨hpart ▸ regular_ofScalar ⟨3, rfl⟩ kind, ih⟩

theorem OfKinds.places {parts : List (String × Layout)} {kinds : List Scalar}
    (h : OfKinds parts kinds) : (record parts).Places parts :=
  places_record fun part hp => Nat.pos_of_isPowerOfTwo (h.regular part hp).power

end Layout

namespace Arg

variable {fields : List Field} {parts : List (String × Layout)} {args : List Arg}

/-! ### Records that hold arguments -/

/-- A record of the kinds of some arguments recovers them. -/
theorem recovers_record (h : Layout.OfKinds parts (args.map kind)) :
    (Layout.record parts).Recovers 8 (.tuple (args.map value)) := by
  refine Layout.recovers_record ⟨3, rfl⟩ h.regular (List.forall₂_map_right_iff.mpr ?_)
  refine (List.forall₂_map_right_iff.mp h).imp fun part arg hpart => ?_
  rw [hpart]
  exact Layout.recovers_ofScalar (by decide) arg.hasType_value

/-- The packer stores each argument where the decoder looks for it. -/
theorem writes_eq_leafWrites
    (h : List.Forall₂ (fun field kind => field.layout = Layout.ofScalar 8 kind) fields
      (args.map kind)) :
    writes fields args =
      leafWrites (Layout.fieldLeaves fields) (Value.scalarsList 8 (args.map value)) := by
  induction args generalizing fields with
  | nil =>
    cases h
    rw [Layout.fieldLeaves]
    rfl
  | cons arg args ih =>
    rw [List.map_cons] at h
    cases h with
    | @cons field _ fields _ hfield hfields =>
      obtain ⟨name, offset, layout⟩ := field
      obtain rfl : layout = Layout.ofScalar 8 arg.kind := hfield
      rw [Layout.fieldLeaves, Layout.leaves_ofScalar, List.map_cons (f := value),
        Value.scalarsList, scalars_value, writes, List.zipWith_cons_cons, ← writes, ih hfields]
      rfl

/-- The bytes hold the arguments, in whole words and at least in one, with zeros outside of the
fields. -/
structure Packed (layout : Layout) (args : List Arg) (bytes : List UInt8) : Prop where
  read : layout.read bytes = .ok (some (.tuple (args.map value)))
  length : bytes.length = 8 * max 1 ((layout.size + 7) / 8)
  zeros : ∀ i < bytes.length,
    (∀ field ∈ layout.fields, i < field.offset ∨ field.offset + field.layout.size ≤ i) →
    bytes[i]? = some 0

/-- **What is packed** holds the arguments. -/
theorem packed_record (h : Layout.OfKinds parts (args.map kind)) :
    Packed (Layout.record parts) args (record (Layout.record parts) args) := by
  have hrecovers := recovers_record h
  have hregular := Layout.regular_record ⟨3, rfl⟩ h.regular
  have hwrites : writes (Layout.place 0 parts) args =
      leafWrites (Layout.record parts).leaves (Value.scalars 8 (.tuple (args.map value))) := by
    rw [writes_eq_leafWrites h.place, Layout.leaves_record, Value.scalars]
  constructor
  case read =>
    refine hrecovers.read _ ?_ ?_
    · rw [length_record]
      exact le_paddedSize _
    · rw [record_eq_image, image, Layout.fields_record, hwrites]
      refine (holds_applyWrites hrecovers.sizes hregular.apart fun leaf hl => ?_).append
      rw [List.length_replicate]
      exact hregular.within leaf hl
  case length => exact length_record ..
  case zeros =>
    intro i hi hout
    rw [length_record] at hi
    rw [record_eq_image]
    -- between the fields nothing was written, and behind the record are zeros
    rcases Nat.lt_or_ge i (Layout.record parts).size with hlt | hge
    · have hnone : lastByte (writes (Layout.place 0 parts) args) i = none := by
        rw [hwrites]
        refine lastByte_leafWrites_eq_none hrecovers.sizes fun leaf hl => ?_
        rw [Layout.leaves_record, Layout.mem_fieldLeaves] at hl
        obtain ⟨field, hf, inner, hin, rfl⟩ := hl
        have hfield := hout field hf
        have hinner := (Layout.forall_mem_place h.regular 0 field hf).within inner hin
        rw [Leaf.stop_shift, Leaf.offset_shift]
        omega
      rw [List.getElem?_append_left (by rwa [length_image]), image, Layout.fields_record,
        getElem?_applyWrites (by rwa [List.length_replicate]), hnone, Option.none_or,
        List.getElem?_replicate_of_lt hlt]
    · rw [List.getElem?_append_right (by rwa [length_image]), length_image,
        List.getElem?_replicate_of_lt (by omega)]

/-! ### Which arguments fit -/

/-- An argument fits into a field of its kind. -/
theorem fits_size (arg : Arg) : arg.fits (Layout.ofScalar 8 arg.kind).size = true := by
  cases arg <;> rfl

/-- An argument of the kind of its field is passed over. -/
theorem check_cons_of_kind {size : Nat} {field : Field} {arg : Arg}
    (hfield : field.layout = Layout.ofScalar 8 arg.kind)
    (hstop : field.offset + field.layout.size ≤ size) :
    check size (field :: fields) (arg :: args) = check size fields args := by
  have hkind : field.layout.scalarKind? = some arg.kind := by rw [hfield]; rfl
  rw [check, if_pos hkind, if_neg (Nat.not_lt_of_le hstop), if_pos (hfield ▸ arg.fits_size)]

/-- Arguments of the kinds of their fields all fit. -/
theorem check_eq_ok {size : Nat}
    (h : List.Forall₂ (fun field kind => field.layout = Layout.ofScalar 8 kind) fields
      (args.map kind))
    (hstop : ∀ field ∈ fields, field.offset + field.layout.size ≤ size) :
    check size fields args = .ok (.ok ()) := by
  induction args generalizing fields with
  | nil =>
    cases h
    rfl
  | cons arg args ih =>
    rw [List.map_cons] at h
    cases h with
    | cons hfield hfields =>
      rw [List.forall_mem_cons] at hstop
      rw [check_cons_of_kind hfield hstop.1, ih hfields hstop.2]

/-- The first argument of another kind than its field is refused. -/
theorem check_eq_mismatch {size : Nat} {before after : List Arg} {arg : Arg} {declared : Scalar}
    {rest : List Scalar}
    (h : List.Forall₂ (fun field kind => field.layout = Layout.ofScalar 8 kind) fields
      (before.map kind ++ declared :: rest))
    (hstop : ∀ field ∈ fields, field.offset + field.layout.size ≤ size)
    (hne : arg.kind ≠ declared) :
    check size fields (before ++ arg :: after) =
      .ok (.error (.typeMismatch "constructor argument" declared.name arg.kind.name)) := by
  induction before generalizing fields with
  | nil =>
    cases h with
    | @cons field _ _ _ hfield _ =>
      have hkind : field.layout.scalarKind? = some declared := by rw [hfield]; rfl
      have hother : ¬field.layout.scalarKind? = some arg.kind := by
        rw [hkind, Option.some.injEq]
        exact hne.symm
      rw [List.nil_append, check, if_neg hother, hkind]
      rfl
  | cons head before ih =>
    rw [List.map_cons, List.cons_append] at h
    cases h with
    | cons hfield hfields =>
      rw [List.forall_mem_cons] at hstop
      rw [List.cons_append, check_cons_of_kind hfield hstop.1, ih hfields hstop.2]

/-- As many arguments as kinds are of these kinds, or there is a first one that is not. -/
theorem exists_mismatch {kinds : List Scalar} (hlen : kinds.length = args.length)
    (hne : args.map kind ≠ kinds) : ∃ before arg after declared rest,
      args = before ++ arg :: after ∧ kinds = before.map kind ++ declared :: rest ∧
        arg.kind ≠ declared := by
  induction args generalizing kinds with
  | nil => exact absurd (List.length_eq_zero_iff.mp hlen).symm hne
  | cons head args ih =>
    cases kinds with
    | nil => cases hlen
    | cons declared kinds =>
      by_cases hhead : head.kind = declared
      · subst hhead
        rw [List.map_cons, ne_eq, List.cons.injEq, not_and] at hne
        obtain ⟨before, arg, after, declared, rest, rfl, rfl, hkind⟩ :=
          ih (Nat.succ.inj hlen) (hne rfl)
        exact ⟨head :: before, arg, after, declared, rest, rfl, rfl, hkind⟩
      · exact ⟨[], head, args, declared, kinds, rfl, rfl, hhead⟩

/-! ### Packing -/

variable {kinds : List Scalar}

/-- Too few arguments, or too many, are refused. -/
theorem pack_of_length_ne (h : Layout.OfKinds parts kinds) (hne : kinds.length ≠ args.length) :
    pack (Layout.record parts) args = .ok (.error (.internal "argument record does not match layout"
      (some (toString kinds.length ++ " fields, " ++ toString args.length ++ " arguments")))) := by
  have hlen : (Layout.place 0 parts).length = kinds.length := h.place.length_eq
  rw [pack, Layout.fields_record, hlen, if_neg hne]

/-- The first argument of a wrong kind is refused. -/
theorem pack_of_kind_ne {before after : List Arg} {arg : Arg} {declared : Scalar}
    {rest : List Scalar} (h : Layout.OfKinds parts (before.map kind ++ declared :: rest))
    (hlen : (before.map kind ++ declared :: rest).length = (before ++ arg :: after).length)
    (hne : arg.kind ≠ declared) :
    pack (Layout.record parts) (before ++ arg :: after) =
      .ok (.error (.typeMismatch "constructor argument" declared.name arg.kind.name)) := by
  rw [pack, Layout.fields_record, if_pos (h.place.length_eq.trans hlen),
    check_eq_mismatch h.place h.places.within hne]
  rfl

/-- Arguments of the kinds of the fields are packed. -/
theorem pack_of_kinds (h : Layout.OfKinds parts (args.map kind)) :
    pack (Layout.record parts) args = .ok (.ok (record (Layout.record parts) args)) := by
  have hlen := h.place.length_eq
  rw [List.length_map] at hlen
  rw [pack, Layout.fields_record, if_pos hlen, check_eq_ok h.place h.places.within]
  rfl

/-- Arguments of other kinds than the fields are refused. -/
theorem exists_error_of_pack (h : Layout.OfKinds parts kinds) (hne : args.map kind ≠ kinds) :
    ∃ error, pack (Layout.record parts) args = .ok (.error error) := by
  by_cases hlen : kinds.length = args.length
  · obtain ⟨before, arg, after, declared, rest, rfl, rfl, hkind⟩ := exists_mismatch hlen hne
    exact ⟨_, pack_of_kind_ne h hlen hkind⟩
  · exact ⟨_, pack_of_length_ne h hlen⟩

end Arg

/-- The records of scalars of some kinds that are laid out for eight-byte pointers: a record of
named scalars, and the arguments of an enumerate, which are two at most, or of a zip. -/
inductive Layout.ScalarRecord : List Scalar → Layout → Prop
  | named {fields : List (String × Scalar)} {layout : Layout}
    (h : record? (scalarParts 8 fields) = .ok layout) :
    ScalarRecord (fields.map Prod.snd) layout
  | enumerateArgs {cache after : LayoutCache} {kinds : List Scalar} {layout : Layout}
    (hc : cache.Reached 8) (h : cache.answer (.enumerateArgs kinds) = .ok (some layout, after)) :
    ScalarRecord (kinds.take 2) layout
  | zipArgs {cache after : LayoutCache} {kinds : List Scalar} {layout : Layout}
    (hc : cache.Reached 8) (h : cache.answer (.zipArgs kinds) = .ok (some layout, after)) :
    ScalarRecord kinds layout

/-- Arguments behind the start of an enumerate have no place. -/
theorem Layout.map_snd_zip_args (kinds : List Scalar) :
    (["source", "start"].zip kinds).map Prod.snd = kinds.take 2 := by
  match kinds with
  | [] | [_] | _ :: _ :: _ => rfl

theorem Layout.ScalarRecord.exists_parts {kinds : List Scalar} {layout : Layout}
    (h : ScalarRecord kinds layout) :
    ∃ parts, OfKinds parts kinds ∧ layout = record parts := by
  have hasked : ∀ {cache after : LayoutCache} {query : LayoutQuery}
      {fields : List (String × Scalar)}, cache.Reached 8 →
      query.subject = some (.scalars fields) → cache.answer query = .ok (some layout, after) →
      layout = record (scalarParts 8 fields) := by
    intro cache after query fields hc hs h
    exact ((hc.answer_eq_ok_iff (by decide) (by decide) hs).mp ⟨after, h⟩).1
  cases h with
  | @named fields _ h =>
    exact ⟨scalarParts 8 fields, ofKinds_scalarParts fields, (record?_eq_ok_iff.mp h).2.2⟩
  | @enumerateArgs _ _ kinds _ hc h =>
    refine ⟨_, ?_, hasked hc rfl h⟩
    have hkinds := ofKinds_scalarParts (["source", "start"].zip kinds)
    rwa [map_snd_zip_args] at hkinds
  | @zipArgs _ _ kinds _ hc h =>
    refine ⟨_, ?_, hasked hc rfl h⟩
    have hkinds := ofKinds_scalarParts (sourceFields 0 kinds)
    rwa [map_snd_sourceFields] at hkinds

/-- **Argument records round-trip.**  Packing arguments into a record of scalars is never a fault.
It gives a record exactly if there is one argument for each field and of its kind, and the record
holds the arguments.  Otherwise it says that the counts differ, or else which argument is the first
of a wrong kind. -/
theorem Arg.pack_roundTrips {kinds : List Scalar} {layout : Layout}
    (h : Layout.ScalarRecord kinds layout) (args : List Arg) :
    layout.fields.map (fun field => field.layout.scalarKind?) = kinds.map some ∧
    (∃ answer, pack layout args = .ok answer) ∧
    ((∃ bytes, pack layout args = .ok (.ok bytes)) ↔ args.map kind = kinds) ∧
    (∀ bytes, pack layout args = .ok (.ok bytes) → Packed layout args bytes) ∧
    (kinds.length ≠ args.length → pack layout args =
      .ok (.error (.internal "argument record does not match layout"
        (some (toString kinds.length ++ " fields, " ++ toString args.length ++ " arguments"))))) ∧
    ∀ before arg after declared rest, kinds.length = args.length →
      args = before ++ arg :: after → kinds = before.map kind ++ declared :: rest →
      arg.kind ≠ declared → pack layout args =
        .ok (.error (.typeMismatch "constructor argument" declared.name arg.kind.name)) := by
  obtain ⟨parts, hparts, rfl⟩ := h.exists_parts
  have hkinds : (Layout.record parts).fields.map (fun field => field.layout.scalarKind?) =
      kinds.map some := by
    rw [← List.forall₂_eq_eq_eq, List.forall₂_map_left_iff, List.forall₂_map_right_iff]
    exact hparts.place.imp fun field kind hfield => by rw [hfield]; rfl
  have hcount := @pack_of_length_ne _ args _ hparts
  have hmismatch : ∀ before arg after declared rest, kinds.length = args.length →
      args = before ++ arg :: after → kinds = before.map kind ++ declared :: rest →
      arg.kind ≠ declared → pack (Layout.record parts) args =
        .ok (.error (.typeMismatch "constructor argument" declared.name arg.kind.name)) := by
    rintro before arg after declared rest hlen rfl rfl hne
    exact pack_of_kind_ne hparts hlen hne
  by_cases heq : args.map kind = kinds
  · subst heq
    have hok := pack_of_kinds hparts
    refine ⟨hkinds, ⟨_, hok⟩, iff_of_true ⟨_, hok⟩ rfl, fun bytes hb => ?_, hcount, hmismatch⟩
    rw [hok, Except.ok.injEq, Except.ok.injEq] at hb
    exact hb ▸ packed_record hparts
  · obtain ⟨error, herror⟩ := exists_error_of_pack hparts heq
    have hnone : ¬∃ bytes, pack (Layout.record parts) args = .ok (.ok bytes) := by
      rintro ⟨bytes, hb⟩
      rw [herror] at hb
      cases hb
    exact ⟨hkinds, ⟨_, herror⟩, iff_of_false hnone heq, fun bytes hb => absurd ⟨bytes, hb⟩ hnone,
      hcount, hmismatch⟩

/-- Two arguments of an enumerate, the second of which takes half of a word. -/
theorem Arg.pack_roundTrips_enumerate :
    let kinds : List Scalar := [.ptr, .i32]
    let args : List Arg := [.ptr 4096, .i32 (-4)]
    ∃ layout after bytes, (LayoutCache.fresh 8).answer (.enumerateArgs kinds) =
        .ok (some layout, after) ∧
      pack layout args = .ok (.ok bytes) ∧
      bytes = [0, 16, 0, 0, 0, 0, 0, 0, 252, 255, 255, 255, 0, 0, 0, 0] ∧
      layout.read bytes = .ok (some (.tuple [.ptr 4096, .i32 (-4)])) ∧
      pack layout [.ptr 4096, .i64 (-4)] =
        .ok (.error (.typeMismatch "constructor argument" "i32" "i64")) ∧
      pack layout [.ptr 4096] = .ok (.error (.internal "argument record does not match layout"
        (some "2 fields, 1 arguments"))) := by
  intro kinds args
  have hreached : (LayoutCache.fresh 8).Reached 8 := ⟨[], [], rfl⟩
  have hsubject : (LayoutQuery.enumerateArgs kinds).subject =
    some (.scalars [("source", .ptr), ("start", .i32)]) := rfl
  obtain ⟨after, hanswer⟩ :=
    (hreached.answer_eq_ok_iff (by decide) (by decide) hsubject).mpr ⟨rfl, by decide⟩
  have hrecord : Layout.ScalarRecord kinds _ := .enumerateArgs hreached hanswer
  obtain ⟨-, -, hok, hpacked, -⟩ := pack_roundTrips hrecord args
  obtain ⟨bytes, hbytes⟩ := hok.mpr rfl
  have hmismatch := (pack_roundTrips hrecord [.ptr 4096, .i64 (-4)]).2.2.2.2.2
  have hcount := (pack_roundTrips hrecord [.ptr 4096]).2.2.2.2.1
  refine ⟨_, after, bytes, hanswer, hbytes, ?_, (hpacked bytes hbytes).read, ?_, ?_⟩
  · rw [eq_record_of_pack hbytes]
    decide
  · exact hmismatch [.ptr 4096] (.i64 (-4)) [] .i32 [] rfl rfl rfl (by decide)
  · have htext : toString (2 : Nat) ++ " fields, " ++ toString (1 : Nat) ++ " arguments" =
        "2 fields, 1 arguments" := by decide
    rw [← htext]
    exact hcount (by decide)

end PullIter
