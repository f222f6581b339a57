import PullIter.Proofs.Exec.Linking
import PullIter.Proofs.Unit.Finishing
import PullIter.Proofs.Unit.Refusal

/-!
# The verdict on a request

What a request is answered depends on its kind, on its arguments and on what is registered, and not
on what was requested before, as long as no symbol of a kind bears the name of a lowered body.  Of
several faults the first in a fixed order decides: an iterable that makes no iterator, a symbol that
is not registered, and only then the arguments of a constructor.  The first failure stays for good.

## Main definitions

* `Verdict` — the answer to a request.
* `NamesApart` — no symbol of a requested kind bears the name of a lowered body.
* `Compiler.NamesFrom` — where the declared names come from.

## Main results

* `Compiler.exists_importUses`, `Compiler.exists_ensureAll` — what cannot be refused.
* `Compiler.request_verdict` — **the verdict on a request, and what the first failure leaves.**
-/

namespace PullIter

/-! ### The verdict -/

/-- The symbol is registered, or built in. -/
def Registered (externals : List (String × Provider)) (symbol : String) : Prop :=
  (∃ provider, (symbol, provider) ∈ externals) ∨ ∃ routine : Intrinsic, symbol = routine.name

/-- The arguments that a request asks a constructor for are not taken. -/
def Request.Refused (request : Request) (e : Error) : Prop :=
  ∃ kind args, request = .constructor kind args ∧ kind.Refuses args e

/-- **The answer to a request**: the complaint about the first iterable that makes no iterator; if
there is none, about the first symbol that is not registered; if there is none either, about the
arguments of a constructor; and otherwise it is met. -/
inductive Verdict (externals : List (String × Provider)) (request : Request) :
    Except Error Unit → Prop
  | kind {before after : List External} {ext : External}
      (leaves : request.kind.externals = before ++ ext :: after)
      (first : ∀ other ∈ before, other.made.isIterator = true)
      (bad : ext.made.isIterator = false) :
      Verdict externals request
        (.error (.typeMismatch "getiter result" "iterator" ext.made.name))
  | symbol {before after : List String} {symbol : String}
      (kind : ∀ ext ∈ request.kind.externals, ext.made.isIterator = true)
      (symbols : request.kind.symbols = before ++ symbol :: after)
      (first : ∀ other ∈ before, Registered externals other)
      (missing : ¬Registered externals symbol) :
      Verdict externals request (.error (.notFound "external symbol" symbol))
  | arguments {e : Error} (kind : ∀ ext ∈ request.kind.externals, ext.made.isIterator = true)
      (symbols : ∀ symbol ∈ request.kind.symbols, Registered externals symbol)
      (refused : request.Refused e) : Verdict externals request (.error e)
  | met (kind : ∀ ext ∈ request.kind.externals, ext.made.isIterator = true)
      (symbols : ∀ symbol ∈ request.kind.symbols, Registered externals symbol)
      (taken : ∀ e, ¬request.Refused e) : Verdict externals request (.ok ())

theorem Request.checkArgs_eq_error_iff {request : Request} {e : Error} :
    request.checkArgs = .error e ↔ request.Refused e := by
  cases request with
  | constructor kind args =>
    rw [checkArgs, Kind.checkConstructor_eq_error_iff]
    refine ⟨fun h => ⟨kind, args, rfl, h⟩, ?_⟩
    rintro ⟨_, _, heq, h⟩
    cases heq
    exact h
  | iterator kind =>
    constructor
    · rintro ⟨⟩
    · rintro ⟨_, _, ⟨⟩, _⟩
  | loop kind =>
    constructor
    · rintro ⟨⟩
    · rintro ⟨_, _, ⟨⟩, _⟩

theorem Request.checkArgs_eq_ok_iff {request : Request} :
    request.checkArgs = .ok () ↔ ∀ e, ¬request.Refused e := by
  simp only [← checkArgs_eq_error_iff]
  cases request.checkArgs <;> simp

/-- **Every request has a verdict.** -/
theorem Verdict.exists (externals : List (String × Provider)) (request : Request) :
    ∃ answer, Verdict externals request answer := by
  cases hcheck : request.kind.check with
  | error e =>
    obtain ⟨before, ext, after, leaves, first, bad, -⟩ := Kind.check_eq_error_iff.mp hcheck
    exact ⟨_, .kind leaves first bad⟩
  | ok _ =>
    have hkind := Kind.check_eq_ok_iff.mp hcheck
    by_cases hsymbols : ∀ symbol ∈ request.kind.symbols, Registered externals symbol
    · cases hargs : request.checkArgs with
      | error e => exact ⟨_, .arguments hkind hsymbols (Request.checkArgs_eq_error_iff.mp hargs)⟩
      | ok _ => exact ⟨_, .met hkind hsymbols (Request.checkArgs_eq_ok_iff.mp hargs)⟩
    · classical
      obtain ⟨symbol, hm, hmissing⟩ : ∃ symbol ∈ request.kind.symbols,
          ¬Registered externals symbol := by simpa using hsymbols
      obtain ⟨first, hfind⟩ : ∃ first,
          request.kind.symbols.find? (fun symbol => !decide (Registered externals symbol)) =
            some first :=
        Option.isSome_iff_exists.mp (List.find?_isSome.mpr ⟨symbol, hm, by simpa using hmissing⟩)
      obtain ⟨hfirst, before, after, heq, hbefore⟩ := List.find?_eq_some_iff_append.mp hfind
      exact ⟨_, .symbol hkind heq (fun other ho => by simpa using hbefore other ho)
        (by simpa using hfirst)⟩

/-! ### What can be provided -/

namespace Op

/-- The first letter of the symbol names of an operation. -/
def initial : Op → Char
  | getiter => 'g'
  | iternext => 'i'
  | release => 'r'
  | construct _ => 'n'
  | forEach => 'f'

theorem exists_stem (op : Op) : ∃ rest, op.stem.toList = op.initial :: rest := by
  cases op with
  | getiter => exact ⟨_, rfl⟩
  | iternext => exact ⟨_, rfl⟩
  | release => exact ⟨_, rfl⟩
  | construct args => exact ⟨['e', 'w'], by rw [stem]; rfl⟩
  | forEach => exact ⟨_, rfl⟩

theorem shape_eq_of_initial_eq {op other : Op} (h : op.initial = other.initial) :
    op.shape = other.shape := by
  revert h
  cases op <;> cases other <;> simp [initial, shape]

end Op

namespace Entry

/-- The first letter of the symbol of a lowered body tells its shape. -/
theorem shape_eq_of_symbolName_eq {entry other : Entry} (h : entry.symbolName = other.symbolName) :
    entry.op.shape = other.op.shape := by
  have hhead : ∀ entry : Entry, entry.symbolName.toList.head? = entry.op.initial := by
    intro entry
    obtain ⟨rest, hs⟩ := entry.op.exists_stem
    unfold symbolName
    split <;> simp [hs]
  have hinitial : entry.op.initial = other.op.initial := by
    rw [← Option.some_inj, ← hhead, ← hhead, h]
  exact Op.shape_eq_of_initial_eq hinitial

/-- A body releases only what has to be released. -/
theorem needsRelease_of_mem_calls {entry callee : Entry} (h : callee ∈ entry.calls)
    (hop : callee.op = .release) : callee.kind.needsRelease = true := by
  have hsource : ∀ {source : Kind}, callee ∈ sourceRelease source →
      callee.kind.needsRelease = true := by
    intro source hm
    obtain ⟨hr, rfl⟩ := mem_sourceRelease hm
    rw [Kind.releasesMade, Bool.and_eq_true] at hr
    exact hr.2
  -- a body calls the release of a source only, so it is enough to know that of a source
  obtain ⟨op, kind⟩ := entry
  cases op with
  | getiter => cases h
  | construct args => cases kind <;> cases h
  | forEach =>
    rcases List.mem_cons.mp h with rfl | h
    · cases hop
    · exact hsource h
  | iternext =>
    cases kind with
    | enumerate source => rw [List.mem_singleton.mp h] at hop; cases hop
    | zip sources =>
      obtain ⟨source, -, rfl⟩ := List.mem_map.mp h
      cases hop
    | generator => cases h
    | external => cases h
  | release =>
    cases kind with
    | enumerate source => exact hsource h
    | zip sources =>
      obtain ⟨source, -, hm⟩ := List.mem_flatMap.mp h
      exact hsource hm
    | generator => cases h
    | external => cases h

/-- An iterator can be advanced. -/
theorem provision_iternext_ne {kind : Kind} (h : kind.isIterator = true) :
    (⟨.iternext, kind⟩ : Entry).provision ≠ .unsupported := by
  cases kind with
  | enumerate => exact Provision.noConfusion
  | zip => exact Provision.noConfusion
  | generator => exact Provision.noConfusion
  | external ext => cases ext with
    | iterator => exact Provision.noConfusion
    | iterable => cases h

/-- What has to be released can be released. -/
theorem provision_release_ne {kind : Kind} (h : kind.needsRelease = true) :
    (⟨.release, kind⟩ : Entry).provision ≠ .unsupported := by
  cases kind with
  | enumerate => exact Provision.noConfusion
  | zip => exact Provision.noConfusion
  | generator => cases h
  | external ext => cases ext with
    | iterator name yields next release => cases release with
      | none => cases h
      | some symbol => exact Provision.noConfusion
    | iterable => cases h

end Entry

/-- Whatever answers a request can be provided. -/
theorem Request.provision_ne_of_mem_plan {request : Request} (hk : request.kind.check = .ok ())
    (ha : request.checkArgs = .ok ()) {entry : Entry} (he : entry ∈ request.plan) :
    entry.provision ≠ .unsupported := by
  obtain ⟨seed, hseed, hentry⟩ := List.mem_flatMap.mp he
  have hproper := proper_of_mem_seeds hk ha hseed
  have hreaches := hproper.mem_plan_iff.mp hentry
  have hnext := (proper_of_mem_plan hk ha he).isIterator
  obtain ⟨op, kind⟩ := entry
  cases op with
  | getiter => exact Provision.noConfusion
  | forEach => exact Provision.noConfusion
  | iternext => exact Entry.provision_iternext_ne (hnext rfl)
  | release =>
    refine Entry.provision_release_ne ?_
    -- a release is called by another body or it is a seed, and either is there to be released
    cases hreaches with
    | tail _ hc => exact Entry.needsRelease_of_mem_calls hc rfl
    | refl =>
      cases request with
      | loop kind => simp [seeds] at hseed
      | iterator other =>
        simp only [seeds_iterator, List.mem_cons, Entry.mk.injEq, reduceCtorEq, false_and, false_or]
          at hseed
        obtain ⟨hr, heq⟩ := Entry.mem_sourceRelease hseed
        cases heq
        rw [Kind.releasesMade, Bool.and_eq_true] at hr
        exact hr.2
      | constructor other args =>
        simp only [seeds, List.mem_cons, Entry.mk.injEq, reduceCtorEq, false_and, false_or] at hseed
        split at hseed
        · next hn => cases List.mem_singleton.mp hseed; exact hn
        · cases hseed
  | construct args =>
    rw [Kind.eq_constructor_of_mem_plan he] at ha
    cases kind with
    | enumerate => exact Provision.noConfusion
    | zip => exact Provision.noConfusion
    | generator => cases ha
    | external => cases ha

/-- No symbol of a requested kind bears the name of a lowered body that some request needs. -/
def NamesApart (requests : List Request) : Prop :=
  ∀ request ∈ requests, ∀ symbol ∈ request.kind.symbols, ∀ other ∈ requests,
    ∀ entry ∈ other.plan, entry.provision = .lowered → entry.symbolName ≠ symbol

instance (requests : List Request) : Decidable (NamesApart requests) :=
  inferInstanceAs (Decidable (∀ request ∈ requests, ∀ symbol ∈ request.kind.symbols,
    ∀ other ∈ requests, ∀ entry ∈ other.plan, entry.provision = .lowered →
      entry.symbolName ≠ symbol))

/-! ### Names that are declared -/

namespace Declarations

/-- A name that is known in no other signature can be declared. -/
theorem exists_declareName {decls : Declarations} {name : String} {signature : Signature}
    (h : ∀ known, (name, known) ∈ decls.names → known = signature) :
    ∃ id after, decls.declareName name signature = .ok (id, after) := by
  unfold declareName
  cases hid : decls.id? name with
  | none => exact ⟨_, _, rfl⟩
  | some id =>
    obtain ⟨declared, hm, hname⟩ : ∃ declared ∈ decls.names, declared.1 = name := by
      have hlt := (List.findIdx?_eq_some_iff_getElem.mp hid)
      obtain ⟨hlt, hname, -⟩ := hlt
      exact ⟨decls.names[id], List.getElem_mem hlt, by simpa using hname⟩
    obtain ⟨known, hknown⟩ : ∃ known, decls.signature? name = some known := by
      cases hs : decls.signature? name with
      | some known => exact ⟨known, rfl⟩
      | none =>
        have hnone := List.lookup_eq_none_iff.mp hs declared hm
        simp [hname] at hnone
    obtain ⟨front, behind, hnames, -⟩ := List.lookup_eq_some_iff.mp hknown
    have hsame : known = signature := h known (by rw [hnames]; simp)
    exact ⟨id, decls, by simp [hknown, hsame]⟩

/-- Declaring a name adds it, unless it is known. -/
theorem names_declareName {decls after : Declarations} {name : String} {signature : Signature}
    {id : Nat} (h : decls.declareName name signature = .ok (id, after)) :
    after.names ⊆ (name, signature) :: decls.names := by
  unfold declareName at h
  split at h
  · split at h
    · cases h; exact List.subset_cons_self ..
    · cases h
  · cases h
    intro declared hm
    rcases List.mem_append.mp hm with hm | hm
    · exact List.mem_cons_of_mem _ hm
    · rw [List.mem_singleton.mp hm]
      exact List.mem_cons_self ..

theorem isSome_lookup_note {table : List (String × Nat)} {name other : String} {id : Nat} :
    ((note table name id).lookup other).isSome ↔ (table.lookup other).isSome ∨ other = name := by
  rw [lookup_note, Option.isSome_or, Bool.or_eq_true]
  refine or_congr_right ?_
  split <;> simp [*]

end Declarations

namespace Compiler

open Declarations (exists_declareName names_declareName)

/-- Every declared name is that of an imported symbol, or of one of some lowered bodies in the
shape of that body. -/
def NamesFrom (entries : List Entry) (decls : Declarations) : Prop :=
  ∀ declared ∈ decls.names, (decls.imported.lookup declared.1).isSome ∨
    ∃ entry ∈ entries, entry.provision = .lowered ∧ entry.symbolName = declared.1 ∧
      declared.2 = entry.op.shape.signature targetPointerBytes

variable {entries : List Entry} {unit after : Compiler}

theorem NamesFrom.mono {more : List Entry} {decls : Declarations} (h : NamesFrom entries decls)
    (hsub : entries ⊆ more) : NamesFrom more decls := by
  intro declared hm
  rcases h declared hm with himported | ⟨entry, hentry, hname⟩
  · exact .inl himported
  · exact .inr ⟨entry, hsub hentry, hname⟩

theorem NamesFrom.importUse (h : NamesFrom entries unit.decls) {symbol : String} {shape : Shape}
    (ha : unit.importUse symbol shape = .ok after) : NamesFrom entries after.decls := by
  obtain ⟨decls, id, hd, rfl⟩ := importUse_eq_ok ha
  unfold Declarations.importSymbol at hd
  split at hd
  · cases hd; exact h
  · split at hd
    · split at hd
      · next known mid hn =>
        cases hd
        intro declared hm
        rw [(Declarations.declareName_eq_ok hn).2]
        rcases List.mem_cons.mp (names_declareName hn hm) with rfl | hm
        · exact .inl (Declarations.isSome_lookup_note.mpr (.inr rfl))
        · exact (h declared hm).imp_left fun hs => Declarations.isSome_lookup_note.mpr (.inl hs)
      · cases hd
    · cases hd

theorem NamesFrom.importUses {uses : List (String × Shape)} :
    ∀ {unit after : Compiler}, NamesFrom entries unit.decls → unit.importUses uses = .ok after →
      NamesFrom entries after.decls := by
  induction uses with
  | nil => intro unit after h ha; cases ha; exact h
  | cons use rest ih =>
    intro unit after h ha
    rw [Compiler.importUses] at ha
    split at ha
    · cases ha
    · next mid hm => exact ih (h.importUse hm) ha

theorem NamesFrom.ensure (h : NamesFrom entries unit.decls) {entry : Entry}
    (hentry : entry ∈ entries) (ha : unit.ensure entry = .ok after) :
    NamesFrom entries after.decls := by
  obtain ⟨-, rfl⟩ | ⟨hl, decls, id, hd, rfl⟩ | ⟨symbol, known, -, -, rfl⟩ := ensure_eq_ok ha
  · exact h
  · unfold Declarations.declare at hd
    split at hd
    · next known mid hn =>
      cases hd
      intro declared hm
      rw [(Declarations.declareName_eq_ok hn).2]
      rcases List.mem_cons.mp (names_declareName hn hm) with rfl | hm
      · exact .inr ⟨entry, hentry, hl, rfl, rfl⟩
      · exact h declared hm
    · cases hd
  · exact h

/-- A registered symbol can be imported, unless its name is declared in another signature. -/
theorem exists_importUse_of_names {symbol : String} {shape : Shape}
    (hsymbol : unit.decls.hasSymbol symbol = true)
    (hname : unit.decls.imported.lookup symbol = none →
      ∀ known, (symbol, known) ∈ unit.decls.names → known = shape.signature targetPointerBytes) :
    ∃ after, unit.importUse symbol shape = .ok after := by
  unfold Compiler.importUse Declarations.importSymbol
  cases hi : unit.decls.imported.lookup symbol with
  | some id => exact ⟨_, rfl⟩
  | none =>
    obtain ⟨id, decls, hd⟩ := exists_declareName (hname hi)
    simp only [hsymbol, if_true, hd]
    exact ⟨_, rfl⟩

/-- **A registered symbol can be imported**, unless a lowered body bears its name. -/
theorem exists_importUse (h : NamesFrom entries unit.decls) {symbol : String}
    (hsymbol : unit.decls.hasSymbol symbol = true)
    (hapart : ∀ entry ∈ entries, entry.provision = .lowered → entry.symbolName ≠ symbol)
    (shape : Shape) : ∃ after, unit.importUse symbol shape = .ok after := by
  refine exists_importUse_of_names hsymbol fun hi known hm => ?_
  rcases h _ hm with himported | ⟨entry, hentry, hl, hn, -⟩
  · rw [hi] at himported
    cases himported
  · exact absurd hn (hapart entry hentry hl)

theorem exists_importUses {uses : List (String × Shape)}
    (hapart : ∀ use ∈ uses, ∀ entry ∈ entries, entry.provision = .lowered →
      entry.symbolName ≠ use.1) :
    ∀ {unit : Compiler}, NamesFrom entries unit.decls →
      (∀ use ∈ uses, unit.decls.hasSymbol use.1 = true) →
      ∃ after, unit.importUses uses = .ok after := by
  induction uses with
  | nil => exact fun _ _ => ⟨_, rfl⟩
  | cons use rest ih =>
    intro unit h hsymbols
    obtain ⟨mid, hm⟩ := exists_importUse h (hsymbols use (List.mem_cons_self ..))
      (hapart use (List.mem_cons_self ..)) use.2
    have hgrows := grows_importUse hm
    obtain ⟨after, ha⟩ := ih (fun use hu => hapart use (List.mem_cons_of_mem _ hu))
      (h.importUse hm) fun use hu => by
        rw [hgrows.hasSymbol]
        exact hsymbols use (List.mem_cons_of_mem _ hu)
    exact ⟨after, by simp only [Compiler.importUses, hm, ha]⟩

/-- An entry point can be made available if its symbol is imported, or if the name of its body is
declared in no other signature. -/
theorem exists_ensure_of_names {entry : Entry} (hprovision : entry.provision ≠ .unsupported)
    (hsymbol : ∀ symbol, entry.provision = .imported symbol →
      (unit.registry.importedKey? symbol).isSome)
    (hname : entry.provision = .lowered → ∀ known, (entry.symbolName, known) ∈ unit.decls.names →
      known = entry.op.shape.signature targetPointerBytes) :
    ∃ after, unit.ensure entry = .ok after := by
  unfold Compiler.ensure
  split
  · exact ⟨_, rfl⟩
  · unfold Compiler.provide
    cases hp : entry.provision with
    | unsupported => exact absurd hp hprovision
    | imported symbol =>
      obtain ⟨key, hk⟩ := Option.isSome_iff_exists.mp (hsymbol symbol hp)
      simp only [hk]
      exact ⟨_, rfl⟩
    | lowered =>
      obtain ⟨id, decls, hd⟩ := exists_declareName (hname hp)
      simp only [Declarations.declare, hd]
      exact ⟨_, rfl⟩

/-- **An entry point can be made available** if its symbol is imported, or if no imported symbol
bears the name of its body. -/
theorem exists_ensure (h : NamesFrom entries unit.decls) {entry : Entry}
    (hprovision : entry.provision ≠ .unsupported)
    (hsymbol : ∀ symbol, entry.provision = .imported symbol →
      (unit.registry.importedKey? symbol).isSome)
    (hname : entry.provision = .lowered → unit.decls.imported.lookup entry.symbolName = none) :
    ∃ after, unit.ensure entry = .ok after := by
  refine exists_ensure_of_names hprovision hsymbol fun hl known hm => ?_
  rcases h _ hm with himported | ⟨other, -, -, hn, rfl⟩
  · rw [hname hl] at himported
    cases himported
  · rw [Entry.shape_eq_of_symbolName_eq hn]

/-- What is made available imports no symbol. -/
theorem imported_ensure {entry : Entry} (ha : unit.ensure entry = .ok after) :
    after.decls.imported = unit.decls.imported := by
  obtain ⟨-, rfl⟩ | ⟨-, decls, id, hd, rfl⟩ | ⟨symbol, known, -, -, rfl⟩ := ensure_eq_ok ha
  · rfl
  · exact (Declarations.declare_eq_ok hd).2
  · rfl

theorem NamesFrom.ensureAll {plan : List Entry} (hsub : plan ⊆ entries) :
    ∀ {unit after : Compiler}, NamesFrom entries unit.decls → unit.ensureAll plan = .ok after →
      NamesFrom entries after.decls := by
  induction plan with
  | nil => intro unit after h ha; cases ha; exact h
  | cons entry rest ih =>
    intro unit after h ha
    rw [Compiler.ensureAll] at ha
    split at ha
    · cases ha
    · next mid hm =>
      exact ih (fun _ ho => hsub (List.mem_cons_of_mem _ ho))
        (h.ensure (hsub (List.mem_cons_self ..)) hm) ha

/-- Entry points can be made available in order, if what lets each of them be is kept. -/
theorem exists_ensureAll_of_step {plan : List Entry} {holds : Compiler → Prop}
    (hexists : ∀ entry ∈ plan, ∀ {unit : Compiler}, holds unit →
      ∃ after, unit.ensure entry = .ok after)
    (hstep : ∀ entry ∈ plan, ∀ {unit after : Compiler}, holds unit →
      unit.ensure entry = .ok after → holds after) :
    ∀ {unit : Compiler}, holds unit → ∃ after, unit.ensureAll plan = .ok after := by
  induction plan with
  | nil => exact fun _ => ⟨_, rfl⟩
  | cons entry rest ih =>
    intro unit h
    obtain ⟨mid, hm⟩ := hexists entry (List.mem_cons_self ..) h
    obtain ⟨after, ha⟩ := ih (fun other ho => hexists other (List.mem_cons_of_mem _ ho))
      (fun other ho => hstep other (List.mem_cons_of_mem _ ho))
      (hstep entry (List.mem_cons_self ..) h hm)
    exact ⟨after, by simp only [ensureAll, hm, ha]⟩

theorem exists_ensureAll {plan : List Entry} (hsub : plan ⊆ entries)
    (hprovision : ∀ entry ∈ plan, entry.provision ≠ .unsupported)
    (h : NamesFrom entries unit.decls)
    (hsymbol : ∀ entry ∈ plan, ∀ symbol, entry.provision = .imported symbol →
      (unit.registry.importedKey? symbol).isSome)
    (hname : ∀ entry ∈ plan, entry.provision = .lowered →
      unit.decls.imported.lookup entry.symbolName = none) :
    ∃ after, unit.ensureAll plan = .ok after := by
  refine @exists_ensureAll_of_step plan (fun found => NamesFrom entries found.decls ∧
    (∀ symbol, found.registry.importedKey? symbol = unit.registry.importedKey? symbol) ∧
    found.decls.imported = unit.decls.imported) ?_ ?_ _ ⟨h, fun _ => rfl, rfl⟩
  · rintro entry he found ⟨hnames, hkeys, himported⟩
    refine exists_ensure hnames (hprovision entry he) (fun symbol hp => ?_) fun hl => ?_
    · rw [hkeys]
      exact hsymbol entry he symbol hp
    · rw [himported]
      exact hname entry he hl
  · rintro entry he found after ⟨hnames, hkeys, himported⟩ ha
    exact ⟨hnames.ensure (hsub he) ha,
      fun symbol => ((adds_ensure ha).symbol symbol).trans (hkeys symbol),
      (imported_ensure ha).trans himported⟩

/-! ### Requests that pass the checks -/

/-- Every declared name of a unit that has not failed is that of an imported symbol, or of a lowered
body that some request needs. -/
theorem namesFrom_requestAll (options : Options) (externals : List (String × Provider))
    (requests : List Request)
    (hf : ((create options externals).requestAll requests).failure = none) :
    NamesFrom (requests.flatMap Request.plan)
      ((create options externals).requestAll requests).decls := by
  have hstart : NamesFrom [] (create options externals).decls := by
    intro declared hm
    have hnames : declared ∈ [(Intrinsic.alloc.name, Shape.alloc.signature targetPointerBytes),
        (Intrinsic.free.name, Shape.free.signature targetPointerBytes)] := hm
    simp only [List.mem_cons, List.not_mem_nil, or_false] at hnames
    rcases hnames with rfl | rfl <;> exact .inl rfl
  have h := @requestAll_induction
    (fun done unit => Sound externals done unit ∧ NamesFrom (done.flatMap Request.plan) unit.decls)
    (fun {done unit request after} h ha => by
      obtain ⟨hs, hnames⟩ := h
      obtain ⟨-, -, -, mid, huses, hplan⟩ := hs.attempt_eq_ok ha
      have hall : NamesFrom ((done ++ [request]).flatMap Request.plan) unit.decls :=
        hnames.mono (by rw [List.flatMap_append]; exact List.subset_append_left ..)
      refine ⟨(hs.attempt ha).1, NamesFrom.ensureAll ?_ (hall.importUses huses) hplan⟩
      rw [List.flatMap_append, List.flatMap_singleton]
      exact List.subset_append_right ..)
    requests [] _ (fun _ => ⟨sound_create options externals, hstart⟩) hf
  exact h.2

/-- What is registered can be linked. -/
theorem hasSymbol_iff {externals : List (String × Provider)} {decls : Declarations}
    (h : decls.linkable = externals.reverse ++ Provider.ofIntrinsics) (symbol : String) :
    decls.hasSymbol symbol = true ↔ Registered externals symbol := by
  have hsome : ∀ entries : List (String × Provider), (entries.lookup symbol).isSome = true ↔
      ∃ provider, (symbol, provider) ∈ entries := by
    intro entries
    rw [← Option.ne_none_iff_isSome, ne_eq, List.lookup_eq_none_iff]
    simp
  have hintrinsic : (∃ provider, (symbol, provider) ∈ Provider.ofIntrinsics) ↔
      ∃ routine : Intrinsic, symbol = routine.name := by
    constructor
    · rintro ⟨provider, hm⟩
      obtain ⟨routine, -, heq⟩ := List.mem_map.mp hm
      exact ⟨routine, (congrArg Prod.fst heq).symm⟩
    · rintro ⟨routine, rfl⟩
      exact ⟨_, List.mem_map.mpr ⟨routine, Intrinsic.mem_all routine, rfl⟩⟩
  rw [Declarations.hasSymbol, Declarations.provider?, hsome, h, Registered, ← hintrinsic,
    ← exists_or]
  simp only [List.mem_append, List.mem_reverse]

variable {externals : List (String × Provider)} {requests : List Request}

/-- An imported symbol is built in, or a requested kind names it. -/
theorem Declared.origin_of_imported (h : Declared (usesOf requests) unit) {symbol : String}
    {id : Nat} (hi : unit.decls.imported.lookup symbol = some id) :
    (∃ routine : Intrinsic, symbol = routine.name) ∨
      ∃ request ∈ requests, symbol ∈ request.kind.symbols := by
  obtain ⟨shape, hu, -⟩ := h.imported hi
  rcases List.mem_append.mp hu with hu | hu
  · left
    rcases mem_eagerUses.mp hu with heq | heq
    · exact ⟨.alloc, congrArg Prod.fst heq⟩
    · exact ⟨.free, congrArg Prod.fst heq⟩
  · right
    obtain ⟨request, hr, hm⟩ := List.mem_flatMap.mp hu
    refine ⟨request, hr, ?_⟩
    rw [← Kind.map_fst_symbolUses]
    exact List.mem_map_of_mem hm

/-- The symbols of a kind that passes the check are imported, if all of them can be linked. -/
theorem exists_prepare {kind : Kind} (hnames : NamesFrom entries unit.decls)
    (hapart : ∀ symbol ∈ kind.symbols, ∀ entry ∈ entries, entry.provision = .lowered →
      entry.symbolName ≠ symbol)
    (hcheck : kind.check = .ok ())
    (hsymbols : ∀ symbol ∈ kind.symbols, unit.decls.hasSymbol symbol = true) :
    ∃ mid, unit.prepare kind = .ok mid := by
  have huse : ∀ use ∈ kind.symbolUses, use.1 ∈ kind.symbols := by
    intro use hu
    rw [← Kind.map_fst_symbolUses]
    exact List.mem_map_of_mem hu
  obtain ⟨mid, hm⟩ := exists_importUses (fun use hu => hapart _ (huse use hu)) hnames
    fun use hu => hsymbols _ (huse use hu)
  exact ⟨mid, prepare_of_importUses hcheck hsymbols hm⟩

/-- **A request that passes the checks is met.** -/
theorem exists_attempt {request : Request} (hs : Sound externals requests unit)
    (hd : Declared (usesOf requests) unit)
    (hnames : NamesFrom (requests.flatMap Request.plan) unit.decls)
    (hapart : NamesApart (requests ++ [request])) (hcheck : request.kind.check = .ok ())
    (hsymbols : ∀ symbol ∈ request.kind.symbols, unit.decls.hasSymbol symbol = true)
    (hargs : request.checkArgs = .ok ()) : ∃ after, unit.attempt request = .ok after := by
  have hall : NamesFrom ((requests ++ [request]).flatMap Request.plan) unit.decls :=
    hnames.mono (by rw [List.flatMap_append]; exact List.subset_append_left ..)
  -- the names of the bodies, of those that are there and of those to come, are no symbols
  have hbody : ∀ entry ∈ (requests ++ [request]).flatMap Request.plan,
      entry.provision = .lowered → ∀ other ∈ requests ++ [request],
      ∀ symbol ∈ other.kind.symbols, entry.symbolName ≠ symbol := by
    intro entry hm hl other ho symbol hsym
    obtain ⟨owner, howner, hentry⟩ := List.mem_flatMap.mp hm
    exact hapart other ho symbol hsym owner howner entry hentry hl
  have hself : request ∈ requests ++ [request] :=
    List.mem_append_right _ (List.mem_singleton_self _)
  obtain ⟨mid, hprepare⟩ := exists_prepare hall
    (fun symbol hm entry he hl => hbody entry he hl request hself symbol hm) hcheck hsymbols
  obtain ⟨-, -, huses⟩ := prepare_eq_ok hprepare
  have hmid : Declared (usesOf (requests ++ [request])) mid := by
    refine (hd.mono ?_).importUses hs.registry ?_ huses
    · rw [usesOf_append]; exact List.subset_append_left ..
    · rw [usesOf_append]
      refine fun use hu => List.mem_append_right _ ?_
      exact List.mem_flatMap.mpr ⟨request, List.mem_singleton_self _, hu⟩
  have hplan : request.plan ⊆ (requests ++ [request]).flatMap Request.plan := by
    rw [List.flatMap_append, List.flatMap_singleton]
    exact List.subset_append_right ..
  obtain ⟨after, ha⟩ := exists_ensureAll hplan
    (fun entry he => Request.provision_ne_of_mem_plan hcheck hargs he) (hall.importUses huses)
    (fun entry he symbol hp => by
      refine isSome_importedKey?_of_importUses huses ?_
      rw [Kind.map_fst_symbolUses]
      refine (Kind.within_of_mem_requestPlan he).symbols ?_
      rw [← Kind.map_fst_symbolUses]
      exact List.mem_map_of_mem (Entry.mem_symbolUses_of_provision hp))
    fun entry he hl => by
      cases hi : mid.decls.imported.lookup entry.symbolName with
      | none => rfl
      | some id =>
        rcases hmid.origin_of_imported hi with ⟨routine, heq⟩ | ⟨other, ho, hm⟩
        · exact absurd heq (Compiled.symbolName_ne_intrinsic entry routine)
        · exact absurd rfl (hbody entry (hplan he) hl other ho _ hm)
  exact ⟨after, hs.attempt_of_ensureAll hcheck hargs hsymbols huses ha⟩

/-! ### Requests that fail -/

theorem attempt_of_check {request : Request} {e : Error} (h : request.kind.check = .error e) :
    unit.attempt request = .error e := by
  simp only [attempt, prepare, h]

/-- The first symbol that cannot be linked is reported. -/
theorem attempt_of_missing {request : Request} {before after : List String} {symbol : String}
    (hcheck : request.kind.check = .ok ())
    (hsymbols : request.kind.symbols = before ++ symbol :: after)
    (hfirst : ∀ other ∈ before, unit.decls.hasSymbol other = true)
    (hmissing : unit.decls.hasSymbol symbol = false) :
    unit.attempt request = .error (.notFound "external symbol" symbol) := by
  have hfind : request.kind.symbols.find? (fun symbol => !unit.decls.hasSymbol symbol) =
      some symbol := by
    refine List.find?_eq_some_iff_append.mpr ⟨by simp [hmissing], before, after, hsymbols, ?_⟩
    intro other hm
    simp [hfirst other hm]
  simp only [attempt, prepare, hcheck, hfind]

/-- Arguments are complained about once the symbols are imported. -/
theorem attempt_of_args {request : Request} {mid : Compiler} {e : Error}
    (hprepare : unit.prepare request.kind = .ok mid) (hargs : request.checkArgs = .error e) :
    unit.attempt request = .error e := by
  simp only [attempt, hprepare, hargs]

/-- What a unit that has not failed answers. -/
theorem request_of_not_failed {request : Request} (hf : unit.failure = none) :
    (unit.request request).1 = (unit.attempt request).map fun _ => () := by
  unfold Compiler.request
  rw [hf]
  cases unit.attempt request <;> rfl

/-- **A unit gives the verdict.** -/
theorem request_of_verdict {request : Request} {answer : Except Error Unit}
    (hs : Sound externals requests unit) (hd : Declared (usesOf requests) unit)
    (hnames : NamesFrom (requests.flatMap Request.plan) unit.decls) (hf : unit.failure = none)
    (hapart : NamesApart (requests ++ [request])) (h : Verdict externals request answer) :
    (unit.request request).1 = answer := by
  have hlinked : ∀ symbol, unit.decls.hasSymbol symbol = true ↔ Registered externals symbol :=
    hasSymbol_iff hs.linkable
  rw [request_of_not_failed hf]
  cases h with
  | kind leaves first bad =>
    rw [attempt_of_check (Kind.check_eq_error_iff.mpr ⟨_, _, _, leaves, first, bad, rfl⟩)]
    rfl
  | symbol kind symbols first missing =>
    rw [attempt_of_missing (Kind.check_eq_ok_iff.mpr kind) symbols
      (fun other hm => (hlinked other).mpr (first other hm))
      (by rwa [← Bool.not_eq_true, hlinked])]
    rfl
  | arguments kind symbols refused =>
    have hself : request ∈ requests ++ [request] :=
      List.mem_append_right _ (List.mem_singleton_self _)
    -- the arguments are looked at behind the symbols, which have to be imported first
    obtain ⟨mid, hprepare⟩ := exists_prepare hnames
      (fun symbol hm entry he hl => by
        obtain ⟨owner, howner, hentry⟩ := List.mem_flatMap.mp he
        exact hapart request hself symbol hm owner (List.mem_append_left _ howner) entry hentry hl)
      (Kind.check_eq_ok_iff.mpr kind) fun symbol hm => (hlinked symbol).mpr (symbols symbol hm)
    rw [attempt_of_args hprepare (Request.checkArgs_eq_error_iff.mpr refused)]
    rfl
  | met kind symbols taken =>
    obtain ⟨after, ha⟩ := exists_attempt hs hd hnames hapart (Kind.check_eq_ok_iff.mpr kind)
      (fun symbol hm => (hlinked symbol).mpr (symbols symbol hm))
      (Request.checkArgs_eq_ok_iff.mpr taken)
    rw [ha]
    rfl

/-! ### The first failure -/

/-- A unit that has failed does not change any more. -/
theorem requestAll_of_failed {e : Error} (hf : unit.failure = some e) (later : List Request) :
    unit.requestAll later = unit := by
  induction later with
  | nil => rfl
  | cons request rest ih =>
    change (unit.request request).2.requestAll rest = unit
    rw [request_of_failed hf]
    exact ih

/-- The answer to a request is kept if it is an error. -/
theorem failure_request (hs : Sound externals requests unit) (hf : unit.failure = none)
    (request : Request) :
    (unit.request request).2.failure =
      match (unit.request request).1 with
      | .ok () => none
      | .error e => some e := by
  unfold Compiler.request
  rw [hf]
  cases ha : unit.attempt request with
  | ok after => exact (hs.attempt ha).2.trans hf
  | error e => rfl

/-- **The verdict on a request** that a unit gets which has not failed.  Whatever it was asked
before, the unit answers with the verdict, as long as no symbol bears the name of a lowered body; and
when it answers with an error, all later requests and finishing are answered with this error, and no
body is lowered any more. -/
theorem request_verdict (options : Options) (externals : List (String × Provider))
    (history : List Request) (request : Request) (unit after : Compiler)
    (answer : Except Error Unit)
    (hunit : unit = (create options externals).requestAll history) (hf : unit.failure = none)
    (hrequest : unit.request request = (answer, after)) :
    (NamesApart (history ++ [request]) → ∀ verdict, Verdict externals request verdict ↔
      answer = verdict) ∧
    (answer = .ok () → after.failure = none) ∧
    ∀ e, answer = .error e → ∀ later : List Request,
      (after.requestAll later).failure = some e ∧
      (∀ next, ((after.requestAll later).request next).1 = .error e) ∧
      (after.requestAll later).finish = .ok (.error e) ∧
      (after.requestAll later).registry.lowered = after.registry.lowered := by
  subst hunit
  have hs := sound_requestAll history [] (fun _ => sound_create options externals) hf
  rw [List.nil_append] at hs
  obtain ⟨hd, -⟩ := declared_requestAll options externals history hf
  have hnames := namesFrom_requestAll options externals history hf
  generalize (create options externals).requestAll history = unit at hf hrequest hs hd hnames
  obtain ⟨hanswer, hafter⟩ : (unit.request request).1 = answer ∧
      (unit.request request).2 = after := by rw [hrequest]; exact ⟨rfl, rfl⟩
  refine ⟨fun hapart verdict => ?_, fun hok => ?_, fun e he later => ?_⟩
  · rw [← hanswer]
    refine ⟨request_of_verdict hs hd hnames hf hapart, ?_⟩
    rintro rfl
    obtain ⟨verdict, hv⟩ := Verdict.exists externals request
    rwa [request_of_verdict hs hd hnames hf hapart hv]
  · rw [← hafter, failure_request hs hf, hanswer, hok]
  · have hfailed : after.failure = some e := by
      rw [← hafter, failure_request hs hf, hanswer, he]
    rw [requestAll_of_failed hfailed]
    refine ⟨hfailed, fun next => ?_, ?_, rfl⟩
    · rw [request_of_failed hfailed]
    · rw [finish, hfailed]

/-- A loop over pairs, one of whose sources advances by a symbol that is not there. -/
def loose : Request :=
  .loop (.zip [.enumerate .array, .external (.iterator "line" .i64 "line_next" none)])

/-- The missing symbol is reported, also in a unit that has met a request before. -/
theorem request_verdict_missing :
    ((create .debug []).requestAll [.loop .array]).failure = none ∧
      NamesApart [.loop .array, loose] ∧
      (((create .debug []).requestAll [.loop .array]).request loose).1 =
        .error (.notFound "external symbol" "line_next") ∧
      Verdict [] loose (.error (.notFound "external symbol" "line_next")) ∧
      (((create .debug []).requestAll [.loop .array, loose]).request (.loop .array)).1 =
        .error (.notFound "external symbol" "line_next") := by
  have hf : ((create .debug []).requestAll [.loop .array]).failure = none := rfl
  have hanswer : (((create .debug []).requestAll [.loop .array]).request loose).1 =
      .error (.notFound "external symbol" "line_next") := rfl
  have hapart : NamesApart [.loop .array, loose] := by decide +kernel
  have h := request_verdict .debug [] [.loop .array] loose _ _ _ rfl hf (Prod.eta _).symm
  exact ⟨hf, hapart, hanswer, (h.1 hapart _).mpr hanswer, (h.2.2 _ hanswer []).2.1 _⟩

end Compiler

end PullIter
