import Mathlib.Data.List.Basic
import PullIter.Proofs.Exec.Runtime

/-!
# Names tell entry points apart

The printed name of a kind nests brackets and commas, and the name of a body puts an operation in
front of it and, for a constructor, the kinds of its arguments behind it.  Such a name is read back
from left to right in one way only: a word ends at the first bracket or comma, and what follows a
printed kind is the end, a comma or a closing bracket.  So two entry points share a name only
through the name of a leaf: one that is empty, one that holds a mark, or one that two different
leaves bear.

## Main definitions

* `Kind.LegibleLeaf` — a leaf with a name that cannot be misread.
* `Kind.SameByName` — two leaves of a sort are the same if they bear one name.

## Main results

* `word_append_inj` — a word is told from what follows it.
* `listed_append_inj` — a printed list is told from what follows it, if its items are.
* `Kind.told` — so is a printed kind.
* `Entry.symbolName_eq_iff` — **the name of a body tells its entry point**, and the printed name of
  a kind the kind.
-/

namespace PullIter

/-! ### Words -/

/-- The text is at its end, or goes on with one of some marks. -/
def StopsAt (marks text : List Char) : Prop := ∀ c ∈ text.head?, c ∈ marks

theorem stopsAt_nil (marks : List Char) : StopsAt marks [] := by
  intro c hc
  cases hc

theorem stopsAt_cons {marks : List Char} {c : Char} (h : c ∈ marks) (text : List Char) :
    StopsAt marks (c :: text) := by
  intro d hd
  cases hd
  exact h

theorem StopsAt.mono {marks more text : List Char} (h : StopsAt marks text)
    (hm : ∀ c ∈ marks, c ∈ more) : StopsAt more text :=
  fun c hc => hm c (h c hc)

/-- Whether a text is free of some marks can be seen letter by letter. -/
theorem forall_not_mem_iff (text marks : List Char) :
    (∀ c ∈ text, c ∉ marks) ↔ (text.all fun c => !marks.contains c) = true := by
  simp only [List.all_eq_true, Bool.not_eq_true', List.contains_eq_mem, decide_eq_false_iff_not]

/-- **A word** without marks is told from what follows it. -/
theorem word_append_inj {marks word other rest rest' : List Char} (hw : ∀ c ∈ word, c ∉ marks)
    (ho : ∀ c ∈ other, c ∉ marks) (hr : StopsAt marks rest) (hr' : StopsAt marks rest')
    (h : word ++ rest = other ++ rest') : word = other ∧ rest = rest' := by
  induction word generalizing other with
  | nil =>
    cases other with
    | nil => exact ⟨rfl, h⟩
    | cons d other =>
      -- what follows the empty word cannot begin inside of another one
      rw [List.nil_append, List.cons_append] at h
      subst h
      exact absurd (hr d rfl) (ho d (List.mem_cons_self ..))
  | cons c word ih =>
    cases other with
    | nil =>
      rw [List.nil_append, List.cons_append] at h
      subst h
      exact absurd (hr' c rfl) (hw c (List.mem_cons_self ..))
    | cons d other =>
      rw [List.cons_append, List.cons_append, List.cons.injEq] at h
      obtain ⟨rfl, h⟩ := h
      obtain ⟨rfl, hrest⟩ := ih (fun c hc => hw c (List.mem_cons_of_mem _ hc))
        (fun c hc => ho c (List.mem_cons_of_mem _ hc)) h
      exact ⟨rfl, hrest⟩

/-! ### Lists of words -/

section Listed

variable {α : Type} (text : α → List Char)

/-- Printed items with commas between them. -/
def listed : List α → List Char
  | [] => []
  | item :: items => text item ++ items.flatMap fun item => ',' :: text item

variable {text} {close : Char} {items others : List α} {rest rest' : List Char}

theorem stopsAt_listed (items : List α) (rest : List Char) :
    StopsAt [close, ','] ((items.flatMap fun item => ',' :: text item) ++ close :: rest) := by
  cases items with
  | nil => exact stopsAt_cons (List.mem_cons_self ..) _
  | cons item items => exact stopsAt_cons (List.mem_cons_of_mem _ (List.mem_cons_self ..)) _

/-- The items behind the first one are told from the mark that closes the list. -/
theorem flatMap_append_inj (hclose : close ≠ ',')
    (told : ∀ item ∈ items, ∀ other ∈ others, ∀ {r r' : List Char}, StopsAt [close, ','] r →
      StopsAt [close, ','] r' → text item ++ r = text other ++ r' → item = other ∧ r = r')
    (h : (items.flatMap fun item => ',' :: text item) ++ close :: rest =
      (others.flatMap fun item => ',' :: text item) ++ close :: rest') :
    items = others ∧ rest = rest' := by
  induction items generalizing others with
  | nil =>
    cases others with
    | nil => exact ⟨rfl, (List.cons.inj h).2⟩
    | cons other others => exact absurd (List.cons.inj h).1 hclose
  | cons item items ih =>
    cases others with
    | nil => exact absurd (List.cons.inj h).1.symm hclose
    | cons other others =>
      rw [List.flatMap_cons, List.flatMap_cons, List.append_assoc, List.append_assoc,
        List.cons_append, List.cons_append] at h
      obtain ⟨rfl, hbehind⟩ := told item (List.mem_cons_self ..) other (List.mem_cons_self ..)
        (stopsAt_listed items rest) (stopsAt_listed others rest') (List.cons.inj h).2
      obtain ⟨rfl, hrest⟩ := ih (fun item hi other ho => told item (List.mem_cons_of_mem _ hi) other
        (List.mem_cons_of_mem _ ho)) hbehind
      exact ⟨rfl, hrest⟩

/-- **A list of printed items** is told from the mark that closes it, if its items are told from
what follows them and none of them begins with that mark. -/
theorem listed_append_inj (hclose : close ≠ ',')
    (hitems : ∀ item ∈ items, ∀ r r' : List Char, close :: r ≠ text item ++ r')
    (hothers : ∀ other ∈ others, ∀ r r' : List Char, close :: r ≠ text other ++ r')
    (told : ∀ item ∈ items, ∀ other ∈ others, ∀ {r r' : List Char}, StopsAt [close, ','] r →
      StopsAt [close, ','] r' → text item ++ r = text other ++ r' → item = other ∧ r = r')
    (h : listed text items ++ close :: rest = listed text others ++ close :: rest') :
    items = others ∧ rest = rest' := by
  cases items with
  | nil =>
    cases others with
    | nil => exact ⟨rfl, (List.cons.inj h).2⟩
    | cons other others =>
      rw [listed, listed, List.append_assoc] at h
      exact absurd h (hothers other (List.mem_cons_self ..) _ _)
  | cons item items =>
    cases others with
    | nil =>
      rw [listed, listed, List.append_assoc] at h
      exact absurd h.symm (hitems item (List.mem_cons_self ..) _ _)
    | cons other others =>
      rw [listed, listed, List.append_assoc, List.append_assoc] at h
      obtain ⟨rfl, hbehind⟩ := told item (List.mem_cons_self ..) other (List.mem_cons_self ..)
        (stopsAt_listed items rest) (stopsAt_listed others rest') h
      obtain ⟨rfl, hrest⟩ := flatMap_append_inj hclose (fun item hi other ho =>
        told item (List.mem_cons_of_mem _ hi) other (List.mem_cons_of_mem _ ho)) hbehind
      exact ⟨rfl, hrest⟩

end Listed

/-! ### Leaves -/

namespace Kind

/-- The marks between the words of a printed kind. -/
def marks : List Char := ['[', ']', ',']

/-- What a printed kind may be followed by. -/
def closers : List Char := [']', ',']

theorem mem_marks_of_mem_closers : ∀ c ∈ closers, c ∈ marks :=
  fun _ hc => List.mem_cons_of_mem '[' hc

/-- A name without brackets and commas. -/
def Plain (name : String) : Prop := ∀ c ∈ name.toList, c ∉ marks

instance (name : String) : Decidable (Plain name) :=
  decidable_of_iff _ (forall_not_mem_iff name.toList marks).symm

/-- A leaf with a name that cannot be misread: it holds no mark, and an external leaf has one. -/
def LegibleLeaf : Kind → Prop
  | .external ext => ext.name ≠ "" ∧ Plain ext.name
  | .generator name _ _ => Plain name
  | .enumerate _ | .zip _ => True

/-- Two leaves of a sort are the same if they bear one name. -/
def SameByName : Kind → Kind → Prop
  | .external ext, .external other => ext.name = other.name → ext = other
  | .generator name yields resume, .generator name' yields' resume' =>
    name = name' → yields = yields' ∧ resume = resume'
  | _, _ => True

instance : DecidablePred LegibleLeaf
  | .external ext => inferInstanceAs (Decidable (ext.name ≠ "" ∧ Plain ext.name))
  | .generator name _ _ => inferInstanceAs (Decidable (Plain name))
  | .enumerate _ => inferInstanceAs (Decidable True)
  | .zip _ => inferInstanceAs (Decidable True)

instance : DecidableRel SameByName
  | .external ext, .external other =>
    inferInstanceAs (Decidable (ext.name = other.name → ext = other))
  | .generator name yields resume, .generator name' yields' resume' =>
    inferInstanceAs (Decidable (name = name' → yields = yields' ∧ resume = resume'))
  | .enumerate _, _ | .zip _, _ => inferInstanceAs (Decidable True)
  | .generator .., .enumerate _ | .generator .., .zip _ | .generator .., .external _ =>
    inferInstanceAs (Decidable True)
  | .external _, .enumerate _ | .external _, .zip _ | .external _, .generator .. =>
    inferInstanceAs (Decidable True)

/-! ### Printed kinds -/

/-- The first word of a printed kind. -/
def word : Kind → String
  | .enumerate _ => "enumerate"
  | .zip _ => "zip"
  | .generator .. => "generator"
  | .external ext => ext.name

/-- What stands behind the first word: nothing, or something in brackets. -/
def bracketed : Kind → List Char
  | .enumerate source => '[' :: (source.name.toList ++ [']'])
  | .zip sources => '[' :: ((names sources).toList ++ [']'])
  | .generator name _ _ => '[' :: (name.toList ++ [']'])
  | .external _ => []

theorem name_eq_word_append (kind : Kind) :
    kind.name.toList = kind.word.toList ++ kind.bracketed := by
  cases kind with
  | external ext => rw [name, word, bracketed, List.append_nil]
  | _ => simp [name, word, bracketed]

theorem plain_word {kind : Kind} (h : ∀ leaf ∈ kind.leafKinds, LegibleLeaf leaf) :
    Plain kind.word := by
  cases kind with
  | external ext => exact (h (.external ext) (by simp [leafKinds])).2
  | _ => rw [word]; decide

theorem word_ne_empty {kind : Kind} (h : ∀ leaf ∈ kind.leafKinds, LegibleLeaf leaf) :
    kind.word ≠ "" := by
  cases kind with
  | external ext => exact (h (.external ext) (by simp [leafKinds])).1
  | _ => rw [word]; decide

/-- A bracket, or what follows the kind, ends its first word. -/
theorem stopsAt_bracketed (kind : Kind) {rest : List Char} (h : StopsAt closers rest) :
    StopsAt marks (kind.bracketed ++ rest) := by
  cases kind with
  | external ext => exact h.mono mem_marks_of_mem_closers
  | _ => exact stopsAt_cons (by decide) _

/-- The first word of a printed kind can be read off, and so can what stands behind it. -/
theorem word_eq_of_name_append {kind other : Kind} {rest rest' : List Char}
    (hk : ∀ leaf ∈ kind.leafKinds, LegibleLeaf leaf)
    (ho : ∀ leaf ∈ other.leafKinds, LegibleLeaf leaf) (hr : StopsAt closers rest)
    (hr' : StopsAt closers rest') (h : kind.name.toList ++ rest = other.name.toList ++ rest') :
    kind.word = other.word ∧ kind.bracketed ++ rest = other.bracketed ++ rest' := by
  rw [name_eq_word_append, name_eq_word_append, List.append_assoc, List.append_assoc] at h
  obtain ⟨hword, hbehind⟩ := word_append_inj (plain_word hk) (plain_word ho)
    (stopsAt_bracketed kind hr) (stopsAt_bracketed other hr') h
  exact ⟨String.toList_inj.mp hword, hbehind⟩

/-- Printed kinds have commas between them. -/
theorem names_eq_listed : ∀ kinds : List Kind,
    (names kinds).toList = listed (fun kind => kind.name.toList) kinds
  | [] => rfl
  | [kind] => by rw [names, listed, List.flatMap_nil, List.append_nil]
  | kind :: next :: kinds => by
    rw [names, String.toList_append, String.toList_append, names_eq_listed (next :: kinds), listed,
      listed, List.flatMap_cons, List.append_assoc]
    · rfl
    · exact List.cons_ne_nil _ _

/-- A closing bracket does not begin a printed kind. -/
theorem bracket_ne_name_append {kind : Kind} (h : ∀ leaf ∈ kind.leafKinds, LegibleLeaf leaf)
    (text rest : List Char) : ']' :: text ≠ kind.name.toList ++ rest := by
  intro heq
  rw [name_eq_word_append, List.append_assoc] at heq
  cases hw : kind.word.toList with
  | nil => exact word_ne_empty h (String.toList_eq_nil_iff.mp hw)
  | cons c word =>
    rw [hw, List.cons_append] at heq
    have hc : c ∈ kind.word.toList := by rw [hw]; exact List.mem_cons_self ..
    exact plain_word h c hc ((List.cons.inj heq).1 ▸ by decide)

/-- An opening bracket cannot follow a printed kind. -/
theorem bracket_ne_of_stopsAt {text rest : List Char} (h : StopsAt closers rest) :
    '[' :: text ≠ rest := by
  rintro rfl
  exact absurd (h '[' rfl) (by decide)

/-- A printed kind is told from what follows it, whatever other kind is printed. -/
def Told (kind : Kind) : Prop :=
  ∀ (other : Kind) (rest rest' : List Char),
    (∀ leaf ∈ kind.leafKinds, LegibleLeaf leaf) → (∀ leaf ∈ other.leafKinds, LegibleLeaf leaf) →
    (∀ leaf ∈ kind.leafKinds, ∀ leaf' ∈ other.leafKinds, SameByName leaf leaf') →
    StopsAt closers rest → StopsAt closers rest' →
    kind.name.toList ++ rest = other.name.toList ++ rest' → kind = other ∧ rest = rest'

mutual

/-- **A printed kind** is told from what follows it. -/
theorem told : ∀ kind : Kind, kind.Told
  | .enumerate source => by
    intro other rest rest' hk ho hsame hr hr' h
    obtain ⟨hword, hinner⟩ := word_eq_of_name_append hk ho hr hr' h
    cases other with
    | enumerate source' =>
      -- a closing bracket stands behind the source as well, so the source is read back first
      have hsource : source.name.toList ++ ']' :: rest = source'.name.toList ++ ']' :: rest' := by
        simpa [bracketed] using hinner
      obtain ⟨rfl, hrest⟩ := told source _ _ _ (by simpa [leafKinds] using hk)
        (by simpa [leafKinds] using ho) (by simpa [leafKinds] using hsame)
        (stopsAt_cons (by decide) _) (stopsAt_cons (by decide) _) hsource
      exact ⟨rfl, (List.cons.inj hrest).2⟩
    | zip | generator => exact absurd hword (by rw [word, word]; decide)
    | external => exact absurd hinner (bracket_ne_of_stopsAt hr')
  | .zip sources => by
    intro other rest rest' hk ho hsame hr hr' h
    obtain ⟨hword, hinner⟩ := word_eq_of_name_append hk ho hr hr' h
    cases other with
    | zip sources' =>
      have hsources : listed (fun kind => kind.name.toList) sources ++ ']' :: rest =
          listed (fun kind => kind.name.toList) sources' ++ ']' :: rest' := by
        simpa [bracketed, names_eq_listed] using hinner
      simp only [leafKinds, leafKindsList_eq, List.mem_flatMap] at hk ho hsame
      -- no printed kind begins with a bracket, so the list is not cut off before its end
      have hbracket : ∀ {kinds : List Kind}, (∀ leaf, (∃ kind ∈ kinds, leaf ∈ kind.leafKinds) →
          LegibleLeaf leaf) → ∀ kind ∈ kinds, ∀ r r' : List Char,
            ']' :: r ≠ kind.name.toList ++ r' :=
        fun hl kind hm => bracket_ne_name_append fun leaf h => hl leaf ⟨kind, hm, h⟩
      obtain ⟨rfl, hrest⟩ := listed_append_inj (by decide) (hbracket hk) (hbracket ho)
        (fun source hs source' hs' _ _ => toldAll sources source hs _ _ _
          (fun leaf hl => hk leaf ⟨source, hs, hl⟩) (fun leaf hl => ho leaf ⟨source', hs', hl⟩)
          fun leaf hl leaf' hl' => hsame leaf ⟨source, hs, hl⟩ leaf' ⟨source', hs', hl'⟩) hsources
      exact ⟨rfl, hrest⟩
    | enumerate | generator => exact absurd hword (by rw [word, word]; decide)
    | external => exact absurd hinner (bracket_ne_of_stopsAt hr')
  | .generator name yields resume => by
    intro other rest rest' hk ho hsame hr hr' h
    obtain ⟨hword, hinner⟩ := word_eq_of_name_append hk ho hr hr' h
    cases other with
    | generator name' yields' resume' =>
      have hname : name.toList ++ ']' :: rest = name'.toList ++ ']' :: rest' := by
        simpa [bracketed] using hinner
      have hplain : Plain name := hk (.generator name yields resume) (by simp [leafKinds])
      have hplain' : Plain name' := ho (.generator name' yields' resume') (by simp [leafKinds])
      obtain ⟨heq, hrest⟩ := word_append_inj hplain hplain' (stopsAt_cons (by decide) _)
        (stopsAt_cons (by decide) _) hname
      obtain rfl := String.toList_inj.mp heq
      obtain ⟨rfl, rfl⟩ := hsame (.generator name yields resume) (by simp [leafKinds])
        (.generator name yields' resume') (by simp [leafKinds]) rfl
      exact ⟨rfl, (List.cons.inj hrest).2⟩
    | enumerate | zip => exact absurd hword (by rw [word, word]; decide)
    | external => exact absurd hinner (bracket_ne_of_stopsAt hr')
  | .external ext => by
    intro other rest rest' hk ho hsame hr hr' h
    obtain ⟨hword, hinner⟩ := word_eq_of_name_append hk ho hr hr' h
    cases other with
    | external ext' =>
      -- without a bracket the word is the whole name, and the leaf is told by it
      obtain rfl := hsame (.external ext) (by simp [leafKinds]) (.external ext')
        (by simp [leafKinds]) hword
      exact ⟨rfl, hinner⟩
    | enumerate | zip | generator => exact absurd hinner.symm (bracket_ne_of_stopsAt hr)

theorem toldAll : ∀ kinds : List Kind, ∀ kind ∈ kinds, kind.Told
  | [], kind, hm => by cases hm
  | first :: kinds, kind, hm => by
    rcases List.mem_cons.mp hm with heq | hm
    · rw [heq]; exact told first
    · exact toldAll kinds kind hm

end

end Kind

/-! ### Names of bodies -/

theorem Scalar.plain_name (kind : Scalar) : ∀ c ∈ kind.name.toList, c ∉ ['(', ')', ','] := by
  rw [forall_not_mem_iff]
  cases kind <;> decide

/-- The printed arguments of a constructor have commas between them. -/
theorem intercalate_eq_listed : ∀ args : List Scalar,
    (",".intercalate (args.map Scalar.name)).toList = listed (fun kind => kind.name.toList) args
  | [] => rfl
  | [kind] => by simp [listed]
  | kind :: next :: args => by
    have ih := intercalate_eq_listed (next :: args)
    rw [List.map_cons] at ih
    rw [List.map_cons, List.map_cons, String.intercalate_cons_cons, String.toList_append,
      String.toList_append, ih, listed, listed, List.flatMap_cons, List.append_assoc]
    rfl

namespace Op

/-- What stands behind the kind in the name of a body: the arguments of a constructor. -/
def suffix : Op → List Char
  | .construct args => '(' :: (listed (fun kind => kind.name.toList) args ++ [')'])
  | _ => []

/-- The first part of a name holds no dot. -/
theorem dot_not_mem_stem (op : Op) : ∀ c ∈ op.stem.toList, c ∉ ['.'] := by
  rw [forall_not_mem_iff]
  cases op <;> rw [stem] <;> decide

end Op

namespace Entry

theorem toList_symbolName (entry : Entry) : entry.symbolName.toList =
    entry.op.stem.toList ++ '.' :: (entry.kind.name.toList ++ entry.op.suffix) := by
  obtain ⟨op, kind⟩ := entry
  cases op with
  | construct args =>
    simp only [symbolName, Op.suffix, String.toList_append, intercalate_eq_listed]
    simp
  | _ => simp [symbolName, Op.suffix]

end Entry

namespace Op

/-- Arguments are told from one another. -/
theorem args_eq_of_listed {args args' : List Scalar}
    (h : listed (fun kind => kind.name.toList) args ++ [')'] =
      listed (fun kind => kind.name.toList) args' ++ [')']) : args = args' := by
  have hstart : ∀ {args : List Scalar}, ∀ kind ∈ args, ∀ r r' : List Char,
      ')' :: r ≠ kind.name.toList ++ r' := by
    intro args kind _ r r'
    cases kind <;> simp [Scalar.name]
  have hplain : ∀ kind : Scalar, ∀ c ∈ kind.name.toList, c ∉ [')', ','] := fun kind c hc hm =>
    kind.plain_name c hc (List.mem_cons_of_mem _ hm)
  refine (listed_append_inj (by decide) hstart hstart (fun kind _ kind' _ _ _ hr hr' heq => ?_) h).1
  obtain ⟨hname, hrest⟩ := word_append_inj (hplain kind) (hplain kind') hr hr' heq
  exact ⟨Scalar.name_injective (String.toList_inj.mp hname), hrest⟩

/-- The last opening parenthesis of a name begins the arguments. -/
theorem parenthesis_not_mem (args : List Scalar) :
    ∀ c ∈ listed (fun kind => kind.name.toList) args ++ [')'], c ∉ ['('] := by
  have hname : ∀ kind : Scalar, ∀ c ∈ kind.name.toList, c ∉ ['('] := fun kind c hc hm =>
    kind.plain_name c hc (by rw [List.mem_singleton.mp hm]; exact List.mem_cons_self ..)
  rw [List.forall_mem_append]
  refine ⟨?_, (forall_not_mem_iff ..).mpr (by decide)⟩
  cases args with
  | nil => intro c hc; cases hc
  | cons kind args =>
    rw [listed, List.forall_mem_append]
    refine ⟨hname kind, fun c hc => ?_⟩
    obtain ⟨kind, -, hc⟩ := List.mem_flatMap.mp hc
    rcases List.mem_cons.mp hc with rfl | hc
    · decide
    · exact hname kind c hc

/-- Arguments in parentheses are told from the kind before them, though its name may hold
parentheses as well. -/
theorem append_suffix_inj {name name' : List Char} {args args' : List Scalar}
    (h : name ++ (construct args).suffix = name' ++ (construct args').suffix) :
    name = name' ∧ args = args' := by
  -- the name is read from its end
  have hreverse : (listed (fun kind => kind.name.toList) args ++ [')']).reverse ++
        '(' :: name.reverse =
      (listed (fun kind => kind.name.toList) args' ++ [')']).reverse ++ '(' :: name'.reverse := by
    simpa [suffix] using congrArg List.reverse h
  obtain ⟨hargs, hname⟩ := word_append_inj
    (fun c hc => parenthesis_not_mem args c (List.mem_reverse.mp hc))
    (fun c hc => parenthesis_not_mem args' c (List.mem_reverse.mp hc))
    (stopsAt_cons (List.mem_cons_self ..) _) (stopsAt_cons (List.mem_cons_self ..) _) hreverse
  exact ⟨List.reverse_inj.mp (List.cons.inj hname).2,
    args_eq_of_listed (List.reverse_inj.mp hargs)⟩

/-- Only constructors share the first part of their names. -/
theorem eq_or_construct_of_stem_eq {op other : Op} (h : op.stem = other.stem) :
    op = other ∨ ∃ args args', op = .construct args ∧ other = .construct args' := by
  revert h
  cases op <;> cases other <;> simp [stem]

end Op

namespace Entry

variable {entry other : Entry}

/-- **The name of a body tells its entry point**, and the printed name of a kind the kind. -/
theorem symbolName_eq_iff
    (legible : ∀ leaf ∈ entry.kind.leafKinds ++ other.kind.leafKinds, leaf.LegibleLeaf)
    (same : ∀ leaf ∈ entry.kind.leafKinds, ∀ leaf' ∈ other.kind.leafKinds, leaf.SameByName leaf') :
    (entry.symbolName = other.symbolName ↔ entry = other) ∧
      (entry.kind.name = other.kind.name ↔ entry.kind = other.kind) := by
  rw [List.forall_mem_append] at legible
  have hkind : entry.kind.name.toList = other.kind.name.toList → entry.kind = other.kind := by
    intro h
    exact (Kind.told _ _ [] [] legible.1 legible.2 same (stopsAt_nil _) (stopsAt_nil _)
      (by rw [h])).1
  refine ⟨⟨fun h => ?_, fun h => by rw [h]⟩, ⟨fun h => hkind (by rw [h]), fun h => by rw [h]⟩⟩
  have htext := congrArg String.toList h
  rw [toList_symbolName, toList_symbolName] at htext
  obtain ⟨hstem, hrest⟩ := word_append_inj entry.op.dot_not_mem_stem other.op.dot_not_mem_stem
    (stopsAt_cons (List.mem_cons_self ..) _) (stopsAt_cons (List.mem_cons_self ..) _) htext
  have hbehind := (List.cons.inj hrest).2
  obtain ⟨op, kind⟩ := entry
  obtain ⟨op', kind'⟩ := other
  rcases Op.eq_or_construct_of_stem_eq (String.toList_inj.mp hstem) with
    rfl | ⟨args, args', rfl, rfl⟩
  · obtain rfl := hkind (List.append_cancel_right hbehind)
    rfl
  · obtain ⟨hname, rfl⟩ := Op.append_suffix_inj hbehind
    obtain rfl := hkind hname
    rfl

/-- A constructor of a zip whose only source is a generator without a name. -/
def namelessZip : Entry := ⟨.construct [.ptr], .zip [.coroutine ""]⟩

/-- A constructor of a zip with one more source, whose name looks like the end of a name. -/
def bracedZip : Entry :=
  ⟨.construct [.ptr, .ptr],
    .zip [.coroutine "", .external (.iterator "zip(ptr)" .i64 "next" none)]⟩

/-- Neither the missing name nor the parentheses in the other one confuse the two. -/
theorem symbolName_eq_iff_parentheses :
    (∀ leaf ∈ namelessZip.kind.leafKinds ++ bracedZip.kind.leafKinds, leaf.LegibleLeaf) ∧
      (∀ leaf ∈ namelessZip.kind.leafKinds, ∀ leaf' ∈ bracedZip.kind.leafKinds,
        leaf.SameByName leaf') ∧
      (namelessZip.symbolName = bracedZip.symbolName ↔ namelessZip = bracedZip) ∧
      (namelessZip.kind.name = bracedZip.kind.name ↔ namelessZip.kind = bracedZip.kind) :=
  ⟨by decide, by decide, symbolName_eq_iff (by decide) (by decide)⟩

/-- A leaf without a name is not seen: its zip prints like the zip of no sources. -/
example : (Kind.zip [.external (.iterator "" .i64 "next" none)]).name = (Kind.zip []).name := by
  decide

end Entry

end PullIter
