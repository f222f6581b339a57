import PullIter.Proofs.Shared.Deed
import PullIter.Session.Run

/-!
# Sessions with shared objects

A host makes arrays, ranges and coroutines, makes combinators of them and of one another, and uses
all of these in any order and through any number of aliases.  It uses an object as what it is.

## Main definitions

* `World` — a host between two turns, with the calls that were made for it.
* `World.Turn` — what the host may do next.
* `World.Reached` — a host after any number of turns.
* `World.Sound` — what every host keeps.

## Main results

* `World.Turn.sound` — one turn keeps it, and its calls are recorded.
* `World.Reached.exists_sound` — **every host keeps it**, and all calls are recorded.
-/

namespace PullIter

open Linkage (runtime)

/-- A leaf as an object of a session. -/
def Role.object? : Role → UInt64 → Option Object
  | array, address => some (.array address)
  | elements, address => some (.arrayIter address)
  | range, address => some (.range address)
  | generator, address => some (.generator address)
  | enumerate _, _ | zip _, _ => none

/-- A host between two turns.  Nothing is taken from it: what has ended faults when it is used. -/
structure World where
  store : Store
  /-- The objects whose addresses the host has. -/
  objects : Cast
  /-- The handles that the host has, with the units whose code drives them. -/
  handles : List (Compiled × Kind × Handle)
  /-- The combinators that the host has made. -/
  values : List (Compiled × Kind × Constructed)
  /-- The calls that were made so far, in the order of time. -/
  calls : List Asked

namespace World

/-- A host that has nothing. -/
def start : World := ⟨.empty, [], [], [], []⟩

/-- The host has what the deed is done with. -/
def Permits (world : World) : Deed → Prop
  | .iter unit kind value => unit.Genuine ∧ world.objects.Offers kind value
  | .step unit kind handle | .drain unit kind handle | .drop unit kind handle =>
    (unit, kind, handle) ∈ world.handles
  | .forEach unit kind value _ slot =>
    unit.Genuine ∧ world.objects.Offers kind value ∧ slot.length = Exec.slotSize kind

/-- The host after a deed. -/
def done (world : World) (deed : Deed) (answer : Deed.Answer) (after : Store) : World where
  store := after
  objects := (answer.handle?.bind fun handle =>
    deed.kind.role?.map fun role => (handle.iterator, role)).toList ++ world.objects
  handles := (answer.handle?.map fun handle => (deed.unit, deed.kind, handle)).toList ++ world.handles
  values := world.values
  calls := world.calls ++ deed.asked answer world.store

/-- What the host may do next. -/
inductive Turn (world : World) : World → Prop
  | array {elements : List Int64} {address : UInt64} {after : Store}
      (answer : world.store.newArray elements = .ok (address, after)) :
      Turn world { world with store := after, objects := (address, .array) :: world.objects }
  | range {start stop : Int64} {address : UInt64} {after : Store}
      (answer : world.store.newRange start stop = .ok (address, after)) :
      Turn world { world with store := after, objects := (address, .range) :: world.objects }
  /-- A generator may have any body that yields finitely often. -/
  | generator {yields : Yields} {failure : Option Int32} {address : UInt64} {after : Store}
      (answer : world.store.newGenerator (.start yields failure) = .ok (address, after)) :
      Turn world { world with store := after, objects := (address, .generator) :: world.objects }
  /-- The host makes an iterator over an array by itself. -/
  | arrayIter {array address : UInt64} {after : Store} (mem : (array, .array) ∈ world.objects)
      (answer : world.store.arrayGetiter array = .ok (address, after)) :
      Turn world { world with store := after, objects := (address, .elements) :: world.objects }
  /-- A combinator is made of any values, also of the same value more than once. -/
  | construct {unit : Compiled} {kind : Kind} {role : Role} {args : List Arg} {value : Constructed}
      {after : Store} (genuine : unit.Genuine) (known : kind.role? = some role)
      (offers : ∀ (i : Nat) (source : Kind) (operand : UInt64), kind.sources[i]? = some source →
        (Arg.pointers args)[i]? = some operand → world.objects.Offers source operand)
      (answer : unit.hostConstruct kind args world.store = .ok (.ok value, after)) :
      Turn world { world with
        store := after
        objects := (value.address, role) :: world.objects
        values := (unit, kind, value) :: world.values }
  | refused {unit : Compiled} {kind : Kind} {args : List Arg} {e : Error} {after : Store}
      (answer : unit.hostConstruct kind args world.store = .ok (.error e, after)) :
      Turn world { world with store := after }
  | deed {deed : Deed} {result : Deed.Answer} {after : Store} (permits : world.Permits deed)
      (answer : deed.run world.store = .ok (result, after)) :
      Turn world (world.done deed result after)
  /-- The host calls the routine of a leaf by itself. -/
  | routine {kind : Kind} {role : Role} {routine : Intrinsic} {iterator : UInt64} {step : Step}
      (known : kind.role? = some role) (advances : role.routine? = some routine)
      (mem : (iterator, role) ∈ world.objects)
      (answer : (Provider.intrinsic routine).next iterator world.store = .ok step) :
      Turn world { world with
        store := step.store
        calls := world.calls ++ Exec.asked runtime kind iterator world.store }
  /-- A leaf is dropped, whether or not it is a source of anything. -/
  | dropLeaf {role : Role} {address : UInt64} {object : Object} {after : Store}
      (mem : (address, role) ∈ world.objects) (known : role.object? address = some object)
      (answer : Session.dropObject object world.store = .ok after) :
      Turn world { world with store := after }
  | dropValue {unit : Compiled} {kind : Kind} {value : Constructed} {after : Store}
      (mem : (unit, kind, value) ∈ world.values)
      (answer : unit.hostDrop value world.store = .ok after) :
      Turn world { world with store := after }

/-- The host after a deed, if that does not fault. -/
def play (world : World) (deed : Deed) : World :=
  match deed.run world.store with
  | .ok (answer, after) => world.done deed answer after
  | .error _ => world

theorem Turn.play {world : World} {deed : Deed} (permits : world.Permits deed)
    (ok : (deed.run world.store).isOk = true) : Turn world (world.play deed) := by
  unfold World.play
  cases h : deed.run world.store with
  | error fault => rw [h] at ok; cases ok
  | ok result => exact .deed permits h

/-- The host keeps its handles. -/
theorem mem_handles_play {world : World} {deed : Deed} {entry : Compiled × Kind × Handle}
    (h : entry ∈ world.handles) : entry ∈ (world.play deed).handles := by
  unfold play
  split
  · exact List.mem_append_right _ h
  · exact h

/-- A host after any number of turns. -/
def Reached (world : World) : Prop := Relation.ReflTransGen Turn start world

/-- A handle can be advanced any number of times. -/
theorem Reached.step {world : World} {unit : Compiled} {kind : Kind} {handle : Handle}
    (h : world.Reached) (hm : (unit, kind, handle) ∈ world.handles)
    (ok : ((Deed.step unit kind handle).run world.store).isOk = true) :
    (world.play (.step unit kind handle)).Reached ∧
      (unit, kind, handle) ∈ (world.play (.step unit kind handle)).handles :=
  ⟨h.tail (.play hm ok), mem_handles_play hm⟩

/-- What every host keeps, for the roles of all objects. -/
structure Sound (cast : Cast) (world : World) : Prop where
  subset : world.objects ⊆ cast
  staged : Staged cast world.store
  handles : ∀ {unit kind handle}, (unit, kind, handle) ∈ world.handles → unit.Genuine ∧
    handle.Drives unit kind ∧ ∃ role, kind.role? = some role ∧ (handle.iterator, role) ∈ cast
  values : ∀ {unit kind value}, (unit, kind, value) ∈ world.values → unit.Genuine ∧
    value.Holds unit kind ∧ ∃ role, kind.role? = some role

variable {cast more : Cast} {world : World} {after : Store}
  {log : Cast → Store → List Asked → Prop}

theorem sound_start : Sound [] start :=
  ⟨List.Subset.refl _, .nil Store.wellFormed_empty, fun hm => absurd hm List.not_mem_nil,
    fun hm => absurd hm List.not_mem_nil⟩

namespace Sound

/-- Nothing but the store changes. -/
theorem withStore (h : Sound cast world) (hs : Staged cast after) :
    Sound cast { world with store := after } :=
  ⟨h.subset, hs, h.handles, h.values⟩

/-- A new object has its role. -/
theorem withObject {address : UInt64} {role : Role} (h : Sound cast world)
    (hg : Grows cast world.store more after) (hm : (address, role) ∈ more) :
    Sound more { world with store := after, objects := (address, role) :: world.objects } where
  subset := by
    intro entry he
    rcases List.mem_cons.mp he with rfl | he
    · exact hm
    · exact hg.subset (h.subset he)
  staged := hg.staged
  handles hm := by
    obtain ⟨hgenuine, hdrives, role, hk, hi⟩ := h.handles hm
    exact ⟨hgenuine, hdrives, role, hk, hg.subset hi⟩
  values := h.values

/-- What the host does is done with what it has. -/
theorem typed (h : Sound cast world) {deed : Deed} (hp : world.Permits deed) : deed.Typed cast := by
  cases deed with
  | iter unit kind value =>
    obtain ⟨role, hk⟩ := hp.2.exists_role
    exact ⟨hp.1, role, hk, hp.2.mono h.subset⟩
  | step unit kind handle =>
    obtain ⟨hgenuine, hdrives, role, hk, hi⟩ := h.handles hp
    exact ⟨hgenuine, role, hk, hdrives, hi⟩
  | drain unit kind handle =>
    obtain ⟨hgenuine, hdrives, role, hk, hi⟩ := h.handles hp
    exact ⟨hgenuine, role, hk, hdrives, hi⟩
  | drop unit kind handle =>
    obtain ⟨hgenuine, hdrives, role, hk, hi⟩ := h.handles hp
    exact ⟨hgenuine, role, hk, hdrives, hi⟩
  | forEach unit kind value trap slot =>
    obtain ⟨role, hk⟩ := hp.2.1.exists_role
    exact ⟨hp.1, role, hk, hp.2.1.mono h.subset, hp.2.2⟩

/-- The host has the handle that it is answered. -/
theorem done {deed : Deed} {answer : Deed.Answer} (h : Sound cast world) (hp : world.Permits deed)
    (hd : Deed.Done log cast world.store world.calls deed answer after more) :
    Sound more (world.done deed answer after) where
  subset := by
    intro entry he
    rcases List.mem_append.mp he with he | he
    · obtain ⟨handle, hhandle, hrole⟩ := Option.bind_eq_some_iff.mp (Option.mem_toList.mp he)
      obtain ⟨-, role, hk, hi⟩ := hd.handle handle hhandle
      rw [hk] at hrole
      cases hrole
      exact hi
    · exact hd.subset (h.subset he)
  staged := hd.staged
  handles := by
    intro unit kind handle hm
    rcases List.mem_append.mp hm with hm | hm
    · obtain ⟨found, hhandle, heq⟩ := Option.map_eq_some_iff.mp (Option.mem_toList.mp hm)
      cases heq
      obtain ⟨hdrives, hrole⟩ := hd.handle handle hhandle
      exact ⟨(h.typed hp).1, hdrives, hrole⟩
    · obtain ⟨hgenuine, hdrives, role, hk, hi⟩ := h.handles hm
      exact ⟨hgenuine, hdrives, role, hk, hd.subset hi⟩
  values := h.values

end Sound

/-! ### Turns -/

/-- A leaf that ends is not advanced. -/
theorem still_dropObject {role : Role} {address : UInt64} {object : Object} {store : Store}
    (hr : role.object? address = some object) (hs : Session.dropObject object store = .ok after) :
    Still cast store after := by
  cases role with
  | array => cases hr; exact Store.still_dropArray hs
  | elements => cases hr; exact Store.still_arrayRelease hs
  | range => cases hr; exact Store.still_rangeRelease hs
  | generator => cases hr; cases hs; exact .erase address
  | enumerate => cases hr
  | zip => cases hr

/-- A combinator is made of values. -/
theorem grows_hostConstruct {unit : Compiled} {kind : Kind} {role : Role} {args : List Arg}
    {value : Constructed} {store : Store} (h : unit.Genuine) (hs : Staged cast store)
    (hk : kind.role? = some role)
    (ho : ∀ (i : Nat) (source : Kind) (operand : UInt64), kind.sources[i]? = some source →
      (Arg.pointers args)[i]? = some operand → cast.Offers source operand)
    (hc : unit.hostConstruct kind args store = .ok (.ok value, after)) :
    value.Holds unit kind ∧ ∃ more, Grows cast store ((value.address, role) :: more) after := by
  have hagree := Compiled.agreesOn_runtime h.runsRuntime hk
  obtain ⟨options, externals, requests, hfinished, -⟩ := h
  obtain ⟨code, hcode⟩ := Compiled.exists_code_of_hostConstruct hc
  obtain ⟨-, hholds, layout, record, hlayout, hpack, hx⟩ :=
    Compiled.hostConstruct_eq_ok hfinished (Compiled.callsLinked_of_role? hk) hc
  rw [Arg.eq_record_of_pack hpack, Exec.construct_congr hagree] at hx
  exact ⟨hholds, Exec.grows_construct hs hk (hfinished.arguments hcode) hlayout ho hx⟩

/-- **One turn** keeps what every host keeps, and its calls are recorded. -/
theorem Turn.sound {next : World} (hlog : Recorded log) (h : Sound cast world)
    (hc : log cast world.store world.calls) (turn : Turn world next) :
    ∃ more, Sound more next ∧ log more next.store next.calls := by
  have grown : ∀ {more after}, Grows cast world.store more after → log more after world.calls :=
    fun hg => hlog.grows h.staged hc hg
  have still : ∀ {after}, Still cast world.store after →
      Sound cast { world with store := after } ∧ log cast after world.calls := fun hs =>
    have hg := (Grows.refl h.staged).still_after hs
    ⟨h.withStore hg.staged, grown hg⟩
  cases turn with
  | array answer =>
    have hg := Store.grows_newArray h.staged answer
    exact ⟨_, h.withObject hg (List.mem_cons_self ..), grown hg⟩
  | range answer =>
    have hg := Store.grows_newRange h.staged answer
    exact ⟨_, h.withObject hg (List.mem_cons_self ..), grown hg⟩
  | generator answer =>
    have hg := Store.grows_newGenerator h.staged (Generator.proper_start _ _) answer
    exact ⟨_, h.withObject hg (List.mem_cons_self ..), grown hg⟩
  | arrayIter mem answer =>
    have hg := Store.grows_arrayGetiter h.staged (h.subset mem) answer
    exact ⟨_, h.withObject hg (List.mem_cons_self ..), grown hg⟩
  | construct genuine known offers answer =>
    obtain ⟨hholds, more, hg⟩ := grows_hostConstruct genuine h.staged known
      (fun i source operand hs ho => (offers i source operand hs ho).mono h.subset) answer
    have hobject := h.withObject hg (List.mem_cons_self ..)
    refine ⟨_, ⟨hobject.subset, hobject.staged, hobject.handles, fun hm => ?_⟩, grown hg⟩
    rcases List.mem_cons.mp hm with heq | hm
    · cases heq
      exact ⟨genuine, hholds, _, known⟩
    · exact h.values hm
  | @refused unit kind args e after answer =>
    obtain rfl := @Books.refused unit world.store after kind args 0 none [] e (.inl answer)
    exact ⟨cast, h, hc⟩
  | deed permits answer =>
    obtain ⟨more, hd⟩ := Deed.done_of_run hlog h.staged hc (h.typed permits) answer
    exact ⟨more, h.done permits hd, hd.recorded⟩
  | @routine kind role routine iterator step known advances mem answer =>
    -- a unit would note the call
    have hn : Exec.next runtime kind iterator world.store = .ok { step with
        store := step.store.called (.next (.intrinsic routine) iterator step.status) } := by
      rw [Exec.next_leaf known advances, Provider.linkedNext, answer]
      rfl
    have hm := h.subset mem
    have hnoted := h.staged.later (Exec.later_next role h.staged known hm hn)
    have hg := (Grows.refl hnoted).of_cells_eq
      (rfl : step.store.cells = _) (rfl : step.store.unused = _)
    exact ⟨cast, ⟨h.subset, hg.staged, h.handles, h.values⟩,
      hlog.grows hnoted (hlog.next h.staged hc known hm hn) hg⟩
  | dropLeaf mem known answer =>
    exact ⟨cast, still (still_dropObject known answer)⟩
  | @dropValue unit kind value after mem answer =>
    obtain ⟨genuine, hholds, role, hk⟩ := h.values mem
    rw [hholds, Exec.release_congr (Compiled.agreesOn_runtime genuine.runsRuntime hk)] at answer
    exact ⟨cast, still (Exec.still_release hk answer)⟩

/-- **Every host keeps it**, and all the calls that were made for it are recorded. -/
theorem Reached.exists_sound (hlog : Recorded log) (hstart : log [] .empty []) {world : World}
    (h : world.Reached) : ∃ cast, Sound cast world ∧ log cast world.store world.calls := by
  induction h with
  | refl => exact ⟨[], sound_start, hstart⟩
  | tail _ turn ih =>
    obtain ⟨cast, hsound, hrecorded⟩ := ih
    exact turn.sound hlog hsound hrecorded

end World

end PullIter
