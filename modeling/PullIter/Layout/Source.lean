import PullIter.Layout.Cache

/-!
# Given layouts

A layout can be given as a value type, as named parts to be laid out, or number by number,
in which case it may be inconsistent.

## Main definitions

* `LayoutSource` — a given layout.
* `LayoutSource.layout` — the layout it stands for.
-/

namespace PullIter

/-- A given layout. -/
inductive LayoutSource
  /-- The layout of a value type. -/
  | type (type : ValueType)
  /-- Named parts, to be laid out. -/
  | record (parts : List (String × LayoutSource))
  /-- Exactly these numbers. -/
  | raw (layout : Layout)

namespace LayoutSource

mutual

/-- The layout that is given, for pointers of `w` bytes. -/
def layout (w : Nat) : LayoutSource → Except Fault Layout
  | .type t => ((LayoutCache.fresh w).value t).map Prod.fst
  | .record parts =>
    match layouts w parts with
    | .error fault => .error fault
    | .ok parts => Layout.record? parts
  | .raw layout => .ok layout

/-- The layouts of named parts, in order. -/
def layouts (w : Nat) : List (String × LayoutSource) → Except Fault (List (String × Layout))
  | [] => .ok []
  | (name, source) :: rest =>
    match layout w source with
    | .error fault => .error fault
    | .ok layout => (layouts w rest).map ((name, layout) :: ·)

end

end LayoutSource

end PullIter
