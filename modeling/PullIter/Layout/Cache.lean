import PullIter.Kind.Describe
import PullIter.Layout.Standard

/-!
# A memory of layouts

The code generator asks for the same layouts again and again, so those of value types and
of state records are remembered.  Laying out on a machine can fault; what has been
remembered cannot.

## Main definitions

* `LayoutCache` — the remembered layouts for one width of pointers.
* `LayoutQuery` — what can be asked for.
* `LayoutCache.answer` — answer a query, and remember the answer.
-/

namespace PullIter

/-- The remembered layouts for one width of pointers. -/
structure LayoutCache where
  pointerBytes : Nat
  values : List (ValueType × Layout)
  enumerateState : Option Layout
  zipStates : List (Nat × Layout)
  deriving Repr

/-- A question for a layout. -/
inductive LayoutQuery
  /-- The layout of a value type. -/
  | value (type : ValueType)
  /-- The layout of what a kind yields. -/
  | yields (kind : Kind)
  /-- The layout of the state of a kind, if it is known. -/
  | state (kind : Kind)
  | enumerateState
  | zipState (sources : Nat)
  | enumerateArgs (args : List Scalar)
  | zipArgs (args : List Scalar)
  /-- The layout of the arguments of a constructor, if the kind has one. -/
  | args (kind : Kind) (args : List Scalar)
  deriving Repr

/-- The result of asking a cache, with the cache after it. -/
abbrev Cached (α : Type) := Except Fault (α × LayoutCache)

namespace LayoutCache

/-- A cache that remembers nothing yet. -/
def fresh (pointerBytes : Nat) : LayoutCache := ⟨pointerBytes, [], none, []⟩

/-- Remember the layout of a value type. -/
def rememberValue (type : ValueType) (cached : Cached Layout) : Cached Layout :=
  cached.map fun (layout, cache) => (layout, { cache with values := (type, layout) :: cache.values })

mutual

/-- The layout of a value type.  The layouts of the parts of a tuple are asked for first,
and remembered. -/
def value (cache : LayoutCache) : ValueType → Cached Layout
  | .scalar kind =>
    match cache.values.lookup (.scalar kind) with
    | some layout => .ok (layout, cache)
    | none => rememberValue (.scalar kind) (.ok (Layout.ofScalar cache.pointerBytes kind, cache))
  | .tuple fields =>
    match cache.values.lookup (.tuple fields) with
    | some layout => .ok (layout, cache)
    | none =>
      rememberValue (.tuple fields) <|
        -- the parts are remembered before the whole
        match parts cache 0 fields with
        | .error fault => .error fault
        | .ok (parts, cache) => (Layout.record? parts).map fun layout => (layout, cache)

/-- The parts of a tuple, named from `index` on. -/
def parts (cache : LayoutCache) (index : Nat) : List ValueType → Cached (List (String × Layout))
  | [] => .ok ([], cache)
  | field :: rest =>
    match value cache field with
    | .error fault => .error fault
    | .ok (layout, cache) =>
      (parts cache (index + 1) rest).map fun (parts, cache) =>
        ((toString index, layout) :: parts, cache)

end

/-- The state record of an enumerate. -/
def askEnumerateState (cache : LayoutCache) : Cached Layout :=
  match cache.enumerateState with
  | some layout => .ok (layout, cache)
  | none =>
    (Layout.record? (Layout.enumerateStateParts cache.pointerBytes)).map fun layout =>
      (layout, { cache with enumerateState := some layout })

/-- The state record of a zip. -/
def askZipState (cache : LayoutCache) (sources : Nat) : Cached Layout :=
  match cache.zipStates.lookup sources with
  | some layout => .ok (layout, cache)
  | none =>
    (Layout.record? (Layout.zipStateParts cache.pointerBytes sources)).map fun layout =>
      (layout, { cache with zipStates := (sources, layout) :: cache.zipStates })

/-- A record that is not remembered. -/
def askRecord (cache : LayoutCache) (parts : List (String × Layout)) : Cached Layout :=
  (Layout.record? parts).map fun layout => (layout, cache)

/-- Answer a query, and remember the answer.  A kind whose state is not known here, or that
has no constructor, has no layout. -/
def answer (cache : LayoutCache) : LayoutQuery → Cached (Option Layout)
  | .value type => found (cache.value type)
  | .yields kind => found (cache.value kind.yields)
  | .state (.enumerate _) | .enumerateState => found cache.askEnumerateState
  | .state (.zip sources) => found (cache.askZipState sources.length)
  | .zipState sources => found (cache.askZipState sources)
  | .state (.generator ..) | .state (.external _) => .ok (none, cache)
  | .enumerateArgs args | .args (.enumerate _) args =>
    found (cache.askRecord (Layout.enumerateArgParts cache.pointerBytes args))
  | .zipArgs args | .args (.zip _) args =>
    found (cache.askRecord (Layout.zipArgParts cache.pointerBytes args))
  | .args (.generator ..) _ | .args (.external _) _ => .ok (none, cache)
where
  found (cached : Cached Layout) : Cached (Option Layout) :=
    cached.map fun (layout, cache) => (some layout, cache)

/-- Answer queries in order. -/
def answers (cache : LayoutCache) : List LayoutQuery → Cached (List (Option Layout))
  | [] => .ok ([], cache)
  | query :: rest =>
    match cache.answer query with
    | .error fault => .error fault
    | .ok (layout, cache) =>
      (cache.answers rest).map fun (layouts, cache) => (layout :: layouts, cache)

end LayoutCache

end PullIter
