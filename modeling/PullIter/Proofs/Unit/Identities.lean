import PullIter.Proofs.Unit.Verdict
import PullIter.Workbench
import Mathlib.Data.List.Induction

/-!
# The identities of names

Names are declared and symbols are imported in any order, the same name in both ways and in equal or
in different signatures.  What a call is answered is told by the calls that succeeded before it: a
name has the identity of its first success and keeps its first signature, and only an import of
what was imported before is not held against that signature.

## Main definitions

* `Declarations.Call` — a declaration or an import; `Declarations.after` — what some calls leave.
* `Declarations.transcript` — the calls that succeeded, with their identities.
* `Declarations.Follows` — declarations that are told by a transcript.
* `Declarations.Told` — what a history of calls tells of its identities and of the next call.

## Main results

* `Follows.run` — a call that succeeds is all that has to be told of it.
* `run_snoc` — a bench answers its calls in this way.
* `told_by_calls` — **calls are answered by the history of the calls before them.**
-/

namespace PullIter.Declarations

/-! ### Calls -/

/-- A call that declares a name that is to have a body, or that imports a symbol. -/
inductive Call
  | declare (name : String) (signature : Signature)
  | importSymbol (name : String) (signature : Signature)
  deriving DecidableEq, Repr

namespace Call

def name : Call → String
  | declare name _ => name
  | importSymbol name _ => name

def signature : Call → Signature
  | declare _ signature => signature
  | importSymbol _ signature => signature

/-- The call on some declarations. -/
def run (decls : Declarations) : Call → Except Error (Nat × Declarations)
  | declare name signature => decls.declare name signature
  | importSymbol name signature => decls.importSymbol name signature

/-- The step of a bench that makes the call. -/
def action : Call → Workbench.Action
  | declare name signature => .declare name signature
  | importSymbol name signature => .importSymbol name signature

end Call

/-- The declarations after a call, which are those before it if it fails. -/
def step (decls : Declarations) (call : Call) : Declarations :=
  match call.run decls with
  | .ok (_, after) => after
  | .error _ => decls

/-- The calls that succeed, with the identities that they are answered. -/
def met (decls : Declarations) : List Call → List (Call × Nat)
  | [] => []
  | call :: rest =>
    match call.run decls with
    | .ok (id, after) => (call, id) :: after.met rest
    | .error _ => decls.met rest

/-- The declarations after some calls. -/
def after (options : Options) (externals : List (String × Provider)) (history : List Call) :
    Declarations :=
  history.foldl step (create options externals)

/-- What a call is answered after some others. -/
def answer (options : Options) (externals : List (String × Provider)) (history : List Call)
    (call : Call) : Except Error Nat :=
  (call.run (after options externals history)).map Prod.fst

/-- The memory primitives are imported before all calls. -/
def primitives : List (Call × Nat) :=
  eagerSymbols.zipIdx.map fun (symbol, id) =>
    (.importSymbol symbol.name (symbol.shape.signature targetPointerBytes), id)

/-- **The calls that succeeded**, with their identities, behind the imports of the primitives. -/
def transcript (options : Options) (externals : List (String × Provider)) (history : List Call) :
    List (Call × Nat) :=
  primitives ++ (create options externals).met history

variable {decls : Declarations} {options : Options} {externals : List (String × Provider)}

theorem met_snoc (decls : Declarations) (history : List Call) (call : Call) :
    decls.met (history ++ [call]) = decls.met history ++ (history.foldl step decls).met [call] := by
  induction history generalizing decls with
  | nil => rfl
  | cons first rest ih =>
    rw [List.cons_append, met, met, List.foldl_cons, step]
    split
    · next hrun => rw [ih]; rfl
    · next hrun => exact ih decls

theorem after_snoc (options : Options) (externals : List (String × Provider))
    (history : List Call) (call : Call) : after options externals (history ++ [call]) =
      (after options externals history).step call := by
  rw [after, List.foldl_append]
  rfl

theorem transcript_snoc (options : Options) (externals : List (String × Provider))
    (history : List Call) (call : Call) : transcript options externals (history ++ [call]) =
      transcript options externals history ++ (after options externals history).met [call] := by
  rw [transcript, met_snoc, ← List.append_assoc]
  rfl

/-! ### What a transcript tells -/

/-- The signatures that the names of a transcript were given, the first of a name first. -/
def given (log : List (Call × Nat)) : List (String × Signature) :=
  log.map fun (call, _) => (call.name, call.signature)

/-- The names of a transcript, each once, in the order of their first success. -/
def order (log : List (Call × Nat)) : List String := ((given log).map Prod.fst).eraseDups

/-- The symbol was imported. -/
def Imported (log : List (Call × Nat)) (name : String) : Prop :=
  ∃ signature id, (Call.importSymbol name signature, id) ∈ log

theorem given_snoc (log : List (Call × Nat)) (call : Call) (id : Nat) :
    given (log ++ [(call, id)]) = given log ++ [(call.name, call.signature)] :=
  List.map_append ..

theorem name_mem_order {log : List (Call × Nat)} {call : Call} {id : Nat} (h : (call, id) ∈ log) :
    call.name ∈ order log :=
  List.mem_eraseDups.mpr (List.mem_map_of_mem (List.mem_map_of_mem h))

/-- A name has a first signature exactly when it has a place. -/
theorem mem_order_iff {log : List (Call × Nat)} {name : String} :
    name ∈ order log ↔ ((given log).lookup name).isSome := by
  rw [order, List.mem_eraseDups, List.lookup_isSome_iff, List.mem_map]
  simp only [beq_iff_eq, @eq_comm _ name]

/-- A success adds its name to the order, unless the name is there. -/
theorem order_snoc (log : List (Call × Nat)) (call : Call) (id : Nat) :
    order (log ++ [(call, id)]) =
      if call.name ∈ order log then order log else order log ++ [call.name] := by
  rw [order, given_snoc, List.map_append, List.eraseDups_append, ← order]
  by_cases hmem : call.name ∈ order log
  · rw [if_pos hmem]
    rw [order, List.mem_eraseDups] at hmem
    simp [List.removeAll, hmem]
  · rw [if_neg hmem]
    rw [order, List.mem_eraseDups] at hmem
    simp [List.removeAll, hmem, List.eraseDups_cons]

/-- The place of a name stays. -/
theorem idxOf_order_snoc {log : List (Call × Nat)} {name : String} (h : name ∈ order log)
    (call : Call) (id : Nat) :
    (order (log ++ [(call, id)])).idxOf name = (order log).idxOf name := by
  rw [order_snoc]
  split
  · rfl
  · exact List.idxOf_append_of_mem h

/-- A name that succeeds has its place in the order. -/
theorem idxOf_order_snoc_self (log : List (Call × Nat)) (call : Call) (id : Nat) :
    (order (log ++ [(call, id)])).idxOf call.name = (order log).idxOf call.name := by
  rw [order_snoc]
  split
  · rfl
  · next hnot =>
    rw [List.idxOf_append_of_notMem hnot, List.idxOf_cons_self, List.idxOf_eq_length hnot]
    rfl

/-- A name keeps its first signature. -/
theorem lookup_given_snoc (log : List (Call × Nat)) (call : Call) (id : Nat) (name : String) :
    (given (log ++ [(call, id)])).lookup name =
      ((given log).lookup name).or (if name = call.name then some call.signature else none) := by
  rw [given_snoc, List.lookup_append, lookup_singleton]

/-! ### What declaring answers -/

/-- The identity of a name is its place. -/
theorem id?_eq (decls : Declarations) (name : String) :
    decls.id? name = if (decls.signature? name).isSome then
      some ((decls.names.map Prod.fst).idxOf name) else none := by
  unfold id? signature?
  induction decls.names with
  | nil => rfl
  | cons declared rest ih =>
    obtain ⟨other, signature⟩ := declared
    by_cases hname : other = name
    · subst hname
      simp [List.findIdx?_cons]
    · have hb : (other == name) = false := by simpa using hname
      have hb' : (name == other) = false := by simpa using Ne.symm hname
      rw [List.findIdx?_cons, List.lookup_cons, hb', List.map_cons, List.idxOf_cons, hb, ih]
      simp only [Bool.false_eq_true, if_false, cond_false]
      split <;> rfl

/-- **What declaring a name answers**: the place of the name, unless it has another signature. -/
theorem declareName_eq (decls : Declarations) (name : String) (signature : Signature) :
    decls.declareName name signature =
      match decls.signature? name with
      | some known =>
        if known = signature then .ok ((decls.names.map Prod.fst).idxOf name, decls)
        else .error (.incompatible name)
      | none => .ok ((decls.names.map Prod.fst).idxOf name,
          { decls with names := decls.names ++ [(name, signature)] }) := by
  unfold declareName
  rw [id?_eq]
  cases hs : decls.signature? name with
  | some known => simp
  | none =>
    have hnot : name ∉ decls.names.map Prod.fst := by
      intro hm
      obtain ⟨declared, hd, hname⟩ := List.mem_map.mp hm
      simpa [hname] using List.lookup_eq_none_iff.mp hs declared hd
    simp [List.idxOf_eq_length hnot]

theorem declareName_eq_error_iff {name : String} {signature : Signature} {e : Error} :
    decls.declareName name signature = .error e ↔
      (∃ known, decls.signature? name = some known ∧ known ≠ signature) ∧
        e = .incompatible name := by
  rw [declareName_eq]
  split
  · next known hs =>
    by_cases hsame : known = signature
    · simp [hs, hsame]
    · rw [if_neg hsame, Except.error.injEq]
      exact ⟨fun he => ⟨⟨known, hs, hsame⟩, he.symm⟩, fun he => he.2.symm⟩
  · next hs => simp [hs]

/-- A table that has a name noted finds what it found before, and the name, if the name had no other
identity in it. -/
theorem lookup_note_iff {table : List (String × Nat)} {name other : String} {id known : Nat}
    (h : ∀ old, table.lookup name = some old → old = id) :
    (note table name id).lookup other = some known ↔
      table.lookup other = some known ∨ (other = name ∧ known = id) := by
  refine ⟨of_lookup_note, ?_⟩
  rw [lookup_note]
  rintro (hk | ⟨rfl, rfl⟩)
  · rw [hk, Option.some_or]
  · rw [if_pos rfl]
    cases hs : table.lookup other with
    | none => rfl
    | some old => rw [h old hs, Option.some_or]

theorem declare_eq_error_iff {name : String} {signature : Signature} {e : Error} :
    decls.declare name signature = .error e ↔ decls.declareName name signature = .error e := by
  unfold declare
  cases decls.declareName name signature <;> simp

/-- An import is refused if the symbol was not imported before, and cannot be linked or not be
declared. -/
theorem importSymbol_eq_error_iff {name : String} {signature : Signature} {e : Error} :
    decls.importSymbol name signature = .error e ↔ decls.imported.lookup name = none ∧
      ((decls.hasSymbol name = false ∧ e = .notFound "external symbol" name) ∨
        (decls.hasSymbol name = true ∧ decls.declareName name signature = .error e)) := by
  unfold importSymbol
  cases decls.imported.lookup name with
  | some id => simp
  | none =>
    cases decls.hasSymbol name with
    | false => simp [eq_comm]
    | true => cases decls.declareName name signature <;> simp

/-! ### Declarations that are told by a transcript -/

/-- Declarations know the names of a transcript in their order and in their first signatures. -/
structure Knows (log : List (Call × Nat)) (decls : Declarations) : Prop where
  names : decls.names.map Prod.fst = order log
  signature (name : String) : decls.signature? name = (given log).lookup name

variable {log : List (Call × Nat)}

/-- Nothing changes for a name that is known. -/
theorem Knows.again (h : Knows log decls) (call : Call) (hmem : call.name ∈ order log) (id : Nat) :
    Knows (log ++ [(call, id)]) decls := by
  refine ⟨by rw [order_snoc, if_pos hmem, h.names], fun name => ?_⟩
  rw [lookup_given_snoc, h.signature]
  split
  · next hname =>
    obtain ⟨known, hknown⟩ := Option.isSome_iff_exists.mp (mem_order_iff.mp hmem)
    rw [hname, hknown]
    rfl
  · rw [Option.or_none]

/-- A name that is not known is added. -/
theorem Knows.new (h : Knows log decls) (call : Call) (hnot : call.name ∉ order log) (id : Nat) :
    Knows (log ++ [(call, id)])
      { decls with names := decls.names ++ [(call.name, call.signature)] } := by
  refine ⟨?_, fun name => ?_⟩
  · rw [order_snoc, if_neg hnot, List.map_append, h.names]
    rfl
  · rw [lookup_given_snoc, ← h.signature, signature?, List.lookup_append, lookup_singleton]
    rfl

/-- A name that is declared has its place in the order, and is known afterwards. -/
theorem Knows.declareName (h : Knows log decls) (call : Call) {id : Nat} {after : Declarations}
    (hrun : decls.declareName call.name call.signature = .ok (id, after)) :
    id = (order log).idxOf call.name ∧ Knows (log ++ [(call, id)]) after ∧
      after.linkable = decls.linkable ∧ after.exported = decls.exported ∧
      after.imported = decls.imported := by
  rw [declareName_eq, h.names] at hrun
  split at hrun
  · next known hs =>
    split at hrun
    · cases hrun
      refine ⟨rfl, h.again call (mem_order_iff.mpr ?_) _, rfl, rfl, rfl⟩
      rw [← h.signature, hs]
      rfl
    · cases hrun
  · next hs =>
    cases hrun
    refine ⟨rfl, h.new call (fun hmem => ?_) _, rfl, rfl, rfl⟩
    rw [mem_order_iff, ← h.signature, hs] at hmem
    cases hmem

/-- Declarations follow a transcript if they know its names, every identity in it is the place of
its name, and it tells what is noted as declared and what is noted as imported. -/
structure Follows (externals : List (String × Provider)) (log : List (Call × Nat))
    (decls : Declarations) : Prop where
  linkable : decls.linkable = externals.reverse ++ Provider.ofIntrinsics
  knows : Knows log decls
  place : ∀ {call id}, (call, id) ∈ log → id = (order log).idxOf call.name
  exported : ∀ {name id}, decls.exported.lookup name = some id ↔
    ∃ signature, (Call.declare name signature, id) ∈ log
  imported : ∀ {name id}, decls.imported.lookup name = some id ↔
    ∃ signature, (Call.importSymbol name signature, id) ∈ log

namespace Follows

/-- The identities in a transcript stay the places of their names, and a call that succeeds is
answered such a place. -/
theorem place_snoc (h : Follows externals log decls) {call : Call} {id : Nat}
    (hid : id = (order log).idxOf call.name) {other : Call} {known : Nat}
    (hm : (other, known) ∈ log ++ [(call, id)]) :
    known = (order (log ++ [(call, id)])).idxOf other.name := by
  rcases List.mem_append.mp hm with hm | hm
  · rw [idxOf_order_snoc (name_mem_order hm), ← h.place hm]
  · cases List.mem_singleton.mp hm
    rw [idxOf_order_snoc_self, hid]

theorem declare (h : Follows externals log decls) {name : String} {signature : Signature} {id : Nat}
    {after : Declarations} (hrun : decls.declare name signature = .ok (id, after)) :
    Follows externals (log ++ [(.declare name signature, id)]) after := by
  unfold Declarations.declare at hrun
  split at hrun
  · next known mid hd =>
    cases hrun
    obtain ⟨hid, hknows, hlinkable, hexported, himported⟩ :=
      h.knows.declareName (.declare name signature) hd
    refine ⟨hlinkable.trans h.linkable, ⟨hknows.names, hknows.signature⟩, h.place_snoc hid, ?_, ?_⟩
    · intro other known
      have hsame : ∀ old, decls.exported.lookup name = some old → old = id := by
        intro old hold
        obtain ⟨first, hm⟩ := h.exported.mp hold
        rw [h.place hm, hid]
        rfl
      rw [hexported, lookup_note_iff hsame, h.exported]
      simp [exists_or]
    · intro other known
      rw [himported, h.imported]
      simp
  · cases hrun

theorem importSymbol (h : Follows externals log decls) {name : String} {signature : Signature}
    {id : Nat} {after : Declarations} (hrun : decls.importSymbol name signature = .ok (id, after)) :
    Follows externals (log ++ [(.importSymbol name signature, id)]) after := by
  unfold Declarations.importSymbol at hrun
  split at hrun
  · next known hknown =>
    cases hrun
    -- whatever its signature, a repeated import is answered by the first one
    obtain ⟨first, hm⟩ := h.imported.mp hknown
    have hid : id = (order log).idxOf name := h.place hm
    have hmem : name ∈ order log := name_mem_order hm
    refine ⟨h.linkable, h.knows.again (.importSymbol name signature) hmem _, h.place_snoc hid,
      ?_, ?_⟩
    · intro other known
      rw [h.exported]
      simp
    · intro other known
      rw [h.imported]
      simp only [List.mem_append, List.mem_singleton, Prod.mk.injEq, Call.importSymbol.injEq,
        exists_or]
      refine ⟨.inl, ?_⟩
      rintro (hk | ⟨_, ⟨rfl, rfl⟩, rfl⟩)
      · exact hk
      · exact ⟨first, hm⟩
  · next hnone =>
    split at hrun
    · split at hrun
      · next known mid hd =>
        cases hrun
        obtain ⟨hid, hknows, hlinkable, hexported, himported⟩ :=
          h.knows.declareName (.importSymbol name signature) hd
        refine ⟨hlinkable.trans h.linkable, ⟨hknows.names, hknows.signature⟩, h.place_snoc hid, ?_,
          ?_⟩
        · intro other known
          rw [hexported, h.exported]
          simp
        · intro other known
          rw [himported, lookup_note_iff (by simp [hnone]), h.imported]
          simp [exists_or]
      · cases hrun
    · cases hrun

/-- **A call that succeeds is told by itself.** -/
theorem run (h : Follows externals log decls) {call : Call} {id : Nat} {after : Declarations}
    (hrun : call.run decls = .ok (id, after)) : Follows externals (log ++ [(call, id)]) after := by
  cases call with
  | declare name signature => exact h.declare hrun
  | importSymbol name signature => exact h.importSymbol hrun

end Follows

theorem follows_create (options : Options) (externals : List (String × Provider)) :
    Follows externals primitives (create options externals) := by
  have hlog : primitives = [(.importSymbol Intrinsic.alloc.name (Shape.alloc.signature 8), 0),
      (.importSymbol Intrinsic.free.name (Shape.free.signature 8), 1)] := rfl
  have himported : (create options externals).imported =
      [(Intrinsic.alloc.name, 0)] ++ [(Intrinsic.free.name, 1)] := rfl
  have hne : Intrinsic.free.name ≠ Intrinsic.alloc.name := by decide
  have hfirst : (order primitives).idxOf Intrinsic.alloc.name = 0 := rfl
  have hsecond : (order primitives).idxOf Intrinsic.free.name = 1 := rfl
  refine ⟨rfl, ⟨rfl, fun _ => rfl⟩, fun {call id} hm => ?_, fun {name id} => ?_,
    fun {name id} => ?_⟩
  · rw [hlog] at hm
    rcases List.mem_cons.mp hm with heq | hm
    · cases heq; exact hfirst.symm
    · cases List.mem_singleton.mp hm; exact hsecond.symm
  · simp [hlog, create]
  · rw [himported, hlog, List.lookup_append, lookup_singleton, lookup_singleton]
    by_cases ha : name = Intrinsic.alloc.name
    · simp [ha, hne.symm, eq_comm]
    · by_cases hf : name = Intrinsic.free.name
      · simp [hf, hne, hne.symm, eq_comm]
      · simp [ha, hf]

theorem follows_after (options : Options) (externals : List (String × Provider))
    (history : List Call) :
    Follows externals (transcript options externals history) (after options externals history) := by
  induction history using List.reverseRecOn with
  | nil =>
    rw [transcript, met, List.append_nil]
    exact follows_create options externals
  | append_singleton history call ih =>
    rw [transcript_snoc, after_snoc, met, step]
    split
    · next id next hrun => exact ih.run hrun
    · next hrun => rw [met, List.append_nil]; exact ih

/-! ### Calls on a bench -/

/-- What a bench says of the answer to a call. -/
def Call.said : Except Error Nat → Workbench.Answer
  | .ok id => .id id
  | .error e => .error e

/-- **A bench answers calls in this way**, and a call that fails leaves it as it was. -/
theorem act_action (bench : Workbench) (call : Call) :
    bench.act call.action =
      .ok (Call.said ((call.run bench.decls).map Prod.fst),
        { bench with decls := bench.decls.step call }) := by
  cases call with
  | declare name signature =>
    rw [Call.action, Workbench.act, step, Call.run]
    cases bench.decls.declare name signature <;> rfl
  | importSymbol name signature =>
    rw [Call.action, Workbench.act, step, Call.run]
    cases bench.decls.importSymbol name signature <;> rfl

/-- The answers that a bench gives to the calls of a history, and to one more. -/
theorem answers_snoc (bench : Workbench) (history : List Call) (call : Call) :
    bench.answers ((history ++ [call]).map Call.action) =
      (bench.answers (history.map Call.action)).map
        (· ++ [Call.said ((call.run (history.foldl step bench.decls)).map Prod.fst)]) := by
  induction history generalizing bench with
  | nil =>
    rw [List.nil_append, List.map_singleton, Workbench.answers, act_action]
    rfl
  | cons first rest ih =>
    rw [List.cons_append, List.map_cons, List.map_cons, Workbench.answers, Workbench.answers,
      act_action, List.foldl_cons]
    simp only [ih]
    cases Workbench.answers _ (rest.map Call.action) <;> rfl

/-- **A run on a fresh bench** answers every call by the calls before it. -/
theorem run_snoc (options : Options) (externals : List (String × Provider)) (history : List Call)
    (call : Call) : Workbench.run options externals ((history ++ [call]).map Call.action) =
      (Workbench.run options externals (history.map Call.action)).map
        (· ++ [Call.said (answer options externals history call)]) :=
  answers_snoc (Workbench.create options externals) history call

/-! ### What a history tells -/

/-- **What a history of calls tells.**  The identities in its transcript are the places of the names
in the order of their first success, and the next call is answered by its transcript. -/
structure Told (options : Options) (externals : List (String × Provider)) (history : List Call) :
    Prop where
  /-- A call that succeeds is answered the place of its name: the one that it has, or the next. -/
  next : ∀ {call id}, answer options externals history call = .ok id →
    id = (order (transcript options externals history)).idxOf call.name
  /-- The next identity is the number of names. -/
  count : (after options externals history).names.length =
    (order (transcript options externals history)).length
  /-- A name has one identity, whether it is declared or imported, and no other name has it. -/
  same : ∀ {call other id known}, (call, id) ∈ transcript options externals history →
    (other, known) ∈ transcript options externals history → (id = known ↔ call.name = other.name)
  /-- An import is not found if the symbol was not imported before and cannot be linked, whether
  the name is declared or not. -/
  notFound : ∀ name signature, answer options externals history (.importSymbol name signature) =
      .error (.notFound "external symbol" name) ↔
    ¬Imported (transcript options externals history) name ∧ ¬Registered externals name
  /-- A declaration, or the first import of a symbol that can be linked, is refused if its name has
  another signature. -/
  incompatible : ∀ call, answer options externals history call = .error (.incompatible call.name) ↔
    (∀ name signature, call = .importSymbol name signature →
      ¬Imported (transcript options externals history) name ∧ Registered externals name) ∧
    ∃ known, (given (transcript options externals history)).lookup call.name = some known ∧
      known ≠ call.signature
  /-- There are no other failures. -/
  failure : ∀ {call e}, answer options externals history call = .error e →
    e = .incompatible call.name ∨
      (∃ name signature, call = .importSymbol name signature) ∧
        e = .notFound "external symbol" call.name
  /-- A symbol that was imported can be imported in every signature. -/
  again : ∀ {name}, Imported (transcript options externals history) name →
    ∀ signature, ∃ id, answer options externals history (.importSymbol name signature) = .ok id
  /-- What is noted are the declarations and the imports that succeeded. -/
  exported : ∀ {name id}, (after options externals history).exported.lookup name = some id ↔
    ∃ signature, (Call.declare name signature, id) ∈ transcript options externals history
  imported : ∀ {name id}, (after options externals history).imported.lookup name = some id ↔
    ∃ signature, (Call.importSymbol name signature, id) ∈ transcript options externals history
  /-- A call that fails changes nothing. -/
  unchanged : ∀ {call e}, answer options externals history call = .error e →
    after options externals (history ++ [call]) = after options externals history

theorem Follows.imported_eq_none_iff (h : Follows externals log decls) {name : String} :
    decls.imported.lookup name = none ↔ ¬Imported log name := by
  rw [Option.eq_none_iff_forall_ne_some]
  constructor
  · rintro hnone ⟨signature, id, hm⟩
    exact hnone id (h.imported.mpr ⟨signature, hm⟩)
  · intro hnot id hid
    obtain ⟨signature, hm⟩ := h.imported.mp hid
    exact hnot ⟨signature, id, hm⟩

theorem answer_eq_ok {history : List Call} {call : Call} {id : Nat}
    (h : answer options externals history call = .ok id) :
    ∃ next, call.run (after options externals history) = .ok (id, next) := by
  rw [answer] at h
  cases hrun : call.run (after options externals history) with
  | error e => rw [hrun] at h; cases h
  | ok result => rw [hrun] at h; cases h; exact ⟨_, rfl⟩

theorem answer_eq_error_iff {history : List Call} {call : Call} {e : Error} :
    answer options externals history call = .error e ↔
      call.run (after options externals history) = .error e := by
  rw [answer]
  cases call.run (after options externals history) <;> simp [Except.map]

/-- **Calls are answered by the history of the calls before them.** -/
theorem told_by_calls (options : Options) (externals : List (String × Provider))
    (history : List Call) : Told options externals history := by
  have h := follows_after options externals history
  have hlinked := Compiler.hasSymbol_iff h.linkable
  have hmissing : ∀ name, (after options externals history).hasSymbol name = false ↔
      ¬Registered externals name := by
    intro name
    rw [← hlinked, Bool.not_eq_true]
  refine ⟨?_, ?_, ?_, ?_, ?_, ?_, ?_, h.exported, h.imported, ?_⟩
  · -- the next identity
    intro call id hid
    obtain ⟨next, hrun⟩ := answer_eq_ok hid
    have hm : (call, id) ∈ transcript options externals history ++ [(call, id)] :=
      List.mem_append_right _ (List.mem_singleton_self _)
    rw [(h.run hrun).place hm, idxOf_order_snoc_self]
  · -- the number of names
    rw [← h.knows.names, List.length_map]
  · -- one identity for a name
    intro call other id known hm hother
    rw [h.place hm, h.place hother]
    exact List.idxOf_inj (name_mem_order hm)
  · -- what is not found
    intro name signature
    rw [answer_eq_error_iff, Call.run, importSymbol_eq_error_iff, h.imported_eq_none_iff, hmissing,
      declareName_eq_error_iff]
    have hne : Error.notFound "external symbol" name ≠ .incompatible name := Error.noConfusion
    simp [hne]
  · -- what is refused
    intro call
    rw [answer_eq_error_iff]
    cases call with
    | declare name signature =>
      rw [Call.run, declare_eq_error_iff, declareName_eq_error_iff, h.knows.signature]
      simp [Call.name, Call.signature]
    | importSymbol name signature =>
      rw [Call.run, importSymbol_eq_error_iff, h.imported_eq_none_iff, hlinked,
        declareName_eq_error_iff, h.knows.signature]
      have hne : Error.incompatible name ≠ .notFound "external symbol" name := Error.noConfusion
      simp [Call.name, Call.signature, and_assoc, hne]
  · -- other failures
    intro call e he
    rw [answer_eq_error_iff] at he
    cases call with
    | declare name signature =>
      exact .inl (declareName_eq_error_iff.mp (declare_eq_error_iff.mp he)).2
    | importSymbol name signature =>
      obtain ⟨-, ⟨-, rfl⟩ | ⟨-, he⟩⟩ := importSymbol_eq_error_iff.mp he
      · exact .inr ⟨⟨_, _, rfl⟩, rfl⟩
      · exact .inl (declareName_eq_error_iff.mp he).2
  · -- a repeated import
    intro name himported signature
    cases ha : answer options externals history (.importSymbol name signature) with
    | ok id => exact ⟨id, rfl⟩
    | error e =>
      rw [answer_eq_error_iff, Call.run, importSymbol_eq_error_iff, h.imported_eq_none_iff] at ha
      exact absurd himported ha.1
  · -- a failure
    intro call e he
    rw [after_snoc, step, answer_eq_error_iff.mp he]

/-- A declared name is not found when it is imported, and a repeated import is held against no
signature. -/
example :
    answer .debug [] [.declare "f" ⟨[], []⟩] (.importSymbol "f" ⟨[], []⟩) =
        .error (.notFound "external symbol" "f") ∧
      answer .debug [("f", .foreign)] [.importSymbol "f" ⟨[], []⟩]
        (.importSymbol "f" ⟨[], [.i64]⟩) = .ok 2 ∧
      answer .debug [("f", .foreign)] [.importSymbol "f" ⟨[], []⟩] (.declare "f" ⟨[], [.i64]⟩) =
        .error (.incompatible "f") := ⟨rfl, rfl, rfl⟩

end PullIter.Declarations
