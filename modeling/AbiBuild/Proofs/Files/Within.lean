import AbiBuild.Proofs.Ends
import AbiBuild.Proofs.Files.Places

/-!
# What changes and what stays

Single changes of a tree, and what may be different between two trees: entries near a path, entries
at certain paths, or only entries that are gone.
-/

namespace AbiBuild.Files.FileSystem

open AbiBuild.Files.Path

variable {files : FileSystem}

/-! ## Single changes -/

@[simp] theorem getElem?_setEntry (files : FileSystem) (place other : Place) (entry : Entry) :
    (files.setEntry place entry).entries[other]? =
      if place = other then some entry else files.entries[other]? := by
  simp [setEntry, Std.ExtTreeMap.getElem?_insert]

@[simp] theorem placeFor_setEntry (files : FileSystem) (place : Place) (entry : Entry)
    (path : Path) : (files.setEntry place entry).placeFor path = files.placeFor path := rfl

@[simp] theorem placeFor_dropEntry (files : FileSystem) (place : Place) (path : Path) :
    (files.dropEntry place).placeFor path = files.placeFor path := rfl

@[simp] theorem getElem?_dropEntry (files : FileSystem) (place other : Place) :
    (files.dropEntry place).entries[other]? =
      if place = other then none else files.entries[other]? := by
  simp [dropEntry, Std.ExtTreeMap.getElem?_erase]

private theorem filter_true {α : Type} (value? : Option α) :
    value?.filter (fun _ => true) = value? := by
  cases value? <;> rfl

@[simp] theorem getElem?_dropTree (files : FileSystem) (place other : Place) :
    (files.dropTree place).entries[other]? =
      if place <+: other then none else files.entries[other]? := by
  rw [dropTree, Std.ExtTreeMap.getElem?_filter']
  by_cases below : place <+: other
  · simp [List.isPrefixOf_iff_prefix.mpr below, below]
  · have apart : place.isPrefixOf other = false := by
      rwa [Bool.eq_false_iff, ne_eq, List.isPrefixOf_iff_prefix]
    simp [apart, below, filter_true]

@[simp] theorem getElem?_dropBelow (files : FileSystem) (place other : Place) :
    (files.dropBelow place).entries[other]? =
      if place <+: other ∧ other ≠ place then none else files.entries[other]? := by
  rw [dropBelow, Std.ExtTreeMap.getElem?_filter']
  by_cases below : place <+: other
  · by_cases same : other = place
    · simp [same, filter_true]
    · simp [List.isPrefixOf_iff_prefix.mpr below, below, same]
  · have apart : place.isPrefixOf other = false := by
      rwa [Bool.eq_false_iff, ne_eq, List.isPrefixOf_iff_prefix]
    simp [apart, below, filter_true]

namespace WellFormed

theorem names_of_entryAt? (wellFormed : files.WellFormed) {place : Place} {entry : Entry}
    (found : files.entryAt? place = some entry) : ∀ name ∈ place, IsName name := by
  cases place with
  | nil => simp
  | cons name names =>
      rw [entryAt?_of_ne_nil files (by simp)] at found
      exact wellFormed.names _ _ found

theorem setEntry (wellFormed : files.WellFormed) {place : Place} {name : String} {entry : Entry}
    (above : files.entryAt? place = some .directory) (isName : IsName name)
    (leaf : files.entries[place ++ [name]]? ≠ some .directory) :
    (files.setEntry (place ++ [name]) entry).WellFormed where
  names other found := by
    rw [getElem?_setEntry]
    split
    next same =>
      intro _
      rw [← same, List.forall_mem_append, List.forall_mem_singleton]
      exact ⟨wellFormed.names_of_entryAt? above, isName⟩
    next => exact wellFormed.names other found
  rooted := by
    rw [getElem?_setEntry, if_neg (by simp)]
    exact wellFormed.rooted
  parents other below entry' found := by
    rw [getElem?_setEntry] at found
    by_cases top : other = []
    · subst top
      rfl
    rw [entryAt?_of_ne_nil _ top, getElem?_setEntry]
    split at found
    next same =>
      obtain ⟨rfl, -⟩ := List.append_inj' same rfl
      rwa [if_neg (by simp), ← entryAt?_of_ne_nil _ top]
    next =>
      have directory := wellFormed.parents _ _ _ found
      rw [entryAt?_of_ne_nil _ top] at directory
      split
      next same => exact absurd (same ▸ directory) leaf
      next => exact directory

theorem pruned (wellFormed : files.WellFormed) {pruned : FileSystem} {gone : Place → Prop}
    [DecidablePred gone]
    (lookup : ∀ place : Place, pruned.entries[place]? =
      if gone place then none else files.entries[place]?)
    (closed : ∀ place name entry, place ≠ [] → gone place →
      files.entries[place ++ [name]]? = some entry → gone (place ++ [name])) :
    pruned.WellFormed where
  names other entry found := by
    rw [lookup] at found
    split at found
    next => cases found
    next => exact wellFormed.names _ _ found
  rooted := by
    rw [lookup]
    split
    next => rfl
    next => exact wellFormed.rooted
  parents other below entry found := by
    rw [lookup] at found
    split at found
    next => cases found
    next kept =>
      by_cases top : other = []
      · subst top
        rfl
      have directory := wellFormed.parents _ _ _ found
      rw [entryAt?_of_ne_nil _ top] at directory ⊢
      rw [lookup, if_neg fun missing => kept (closed _ _ _ top missing found), directory]

theorem dropEntry (wellFormed : files.WellFormed) {place : Place}
    (leaf : files.entries[place]? ≠ some .directory) : (files.dropEntry place).WellFormed := by
  refine wellFormed.pruned (getElem?_dropEntry files place) ?_
  rintro _ name entry below rfl found
  have directory := wellFormed.parents _ _ _ found
  rw [entryAt?_of_ne_nil _ below] at directory
  exact absurd directory leaf

theorem dropTree (wellFormed : files.WellFormed) (place : Place) :
    (files.dropTree place).WellFormed := by
  refine wellFormed.pruned (getElem?_dropTree files place) ?_
  intro other name _ _ gone _
  exact gone.trans (List.prefix_append _ _)

theorem dropBelow (wellFormed : files.WellFormed) (place : Place) :
    (files.dropBelow place).WellFormed := by
  refine wellFormed.pruned (getElem?_dropBelow files place) ?_
  rintro other name _ _ ⟨gone, _⟩ _
  refine ⟨gone.trans (List.prefix_append _ _), ?_⟩
  rintro rfl
  exact absurd gone.length_le (by simp)

end WellFormed

/-! ## Near a path -/

structure Below (root path : Path) : Prop where
  plain : path.Plain
  sameBase : path.isAbsolute = root.isAbsolute
  leads : steps root <+: steps path

structure Near (root path : Path) : Prop where
  plain : path.Plain
  sameBase : path.isAbsolute = root.isAbsolute
  leads : steps root <+: steps path ∨ steps path <+: steps root

theorem Below.refl {root : Path} (plain : root.Plain) : Below root root where
  plain := plain
  sameBase := rfl
  leads := List.prefix_refl _

theorem Below.near {root path : Path} (below : Below root path) : Near root path where
  plain := below.plain
  sameBase := below.sameBase
  leads := .inl below.leads

theorem Below.trans {root middle path : Path} (above : Below root middle)
    (below : Below middle path) : Below root path where
  plain := below.plain
  sameBase := below.sameBase.trans above.sameBase
  leads := above.leads.trans below.leads

theorem Below.join {root path : Path} (below : Below root path) {name : String}
    (isName : IsName name) : Below root (path.join name) where
  plain := below.plain.join isName
  sameBase := by rw [below.plain.isAbsolute_join isName.whole, below.sameBase]
  leads := by
    rw [below.plain.steps_join isName.whole]
    exact below.leads.trans (List.prefix_append _ _)

theorem Below.foldl_join {root base : Path} (below : Below root base) {names : List String}
    (isName : ∀ name ∈ names, IsName name) : Below root (names.foldl Path.join base) := by
  induction names generalizing base with
  | nil => exact below
  | cons name names ih =>
      rw [List.forall_mem_cons] at isName
      exact ih (below.join isName.1) isName.2

theorem placeFor_congr {before after : FileSystem}
    (same : after.host = before.host) (path : Path) :
    after.placeFor path = before.placeFor path := by
  rw [placeFor, placeFor, baseOf, baseOf, same]

theorem directory_congr {before after : FileSystem}
    (same : after.host = before.host) :
    after.directory = before.directory := by
  rw [directory, directory, same]

theorem Below.placeFor {root path : Path} (below : Below root path) (files : FileSystem) :
    files.placeFor root <+: files.placeFor path := by
  rw [FileSystem.placeFor, FileSystem.placeFor, baseOf, baseOf, below.sameBase]
  exact (List.prefix_append_right_inj _).mpr below.leads

/-- The host lets everything at and below a path be read. -/
def LegibleBelow (files : FileSystem) (root : Path) : Prop :=
  ∀ path, Below root path → files.host.unreadable[files.placeFor path]? = none

theorem Legible.below (legible : files.Legible) (root : Path) : files.LegibleBelow root :=
  fun path _ => legible.getElem? (files.placeFor path)

theorem LegibleBelow.congr {other : FileSystem} {root : Path} (legible : files.LegibleBelow root)
    (same : other.host = files.host) : other.LegibleBelow root := by
  intro path below
  rw [same, placeFor_congr same]
  exact legible path below

theorem Below.placeFor_ne {root path other : Path} (below : Below root path)
    (belowOther : Below root other) (different : steps path ≠ steps other) (files : FileSystem) :
    files.placeFor path ≠ files.placeFor other := by
  rw [FileSystem.placeFor, FileSystem.placeFor, baseOf, baseOf, below.sameBase,
    belowOther.sameBase, ne_eq, List.append_cancel_left_eq]
  exact different

theorem Near.placeFor {root path : Path} (near : Near root path) (files : FileSystem) :
    files.placeFor root <+: files.placeFor path ∨ files.placeFor path <+: files.placeFor root := by
  rw [FileSystem.placeFor, FileSystem.placeFor, baseOf, baseOf, near.sameBase,
    List.prefix_append_right_inj, List.prefix_append_right_inj]
  exact near.leads

structure Within (root : Path) (before after : FileSystem) : Prop where
  host : after.host = before.host
  wellFormed : before.WellFormed → after.WellFormed
  elsewhere : ∀ place : Place, ¬before.placeFor root <+: place →
    ¬place <+: before.placeFor root → after.entries[place]? = before.entries[place]?

instance (root : Path) : Accumulates (Within root) where
  refl files := ⟨rfl, id, fun _ _ _ => rfl⟩
  trans first second := by
    refine ⟨second.host.trans first.host, second.wellFormed ∘ first.wellFormed, ?_⟩
    intro place apart leads
    rw [← placeFor_congr first.host] at apart leads
    rw [second.elsewhere place apart leads]
    rw [placeFor_congr first.host] at apart leads
    exact first.elsewhere place apart leads

structure Clears (root : Path) (before after : FileSystem) : Prop extends
    Within root before after where
  kept : ∀ (place : Place) (entry : Entry), after.entries[place]? = some entry →
    before.entries[place]? = some entry

instance (root : Path) : Accumulates (Clears root) where
  refl files := ⟨Accumulates.refl files, fun _ _ => id⟩
  trans first second := ⟨Accumulates.trans first.toWithin second.toWithin,
    fun place entry found => first.kept place entry (second.kept place entry found)⟩

structure Touches (paths : List Path) (before after : FileSystem) : Prop where
  host : after.host = before.host
  wellFormed : before.WellFormed → after.WellFormed
  elsewhere : ∀ place : Place, (∀ path ∈ paths, place ≠ before.placeFor path) →
    after.entries[place]? = before.entries[place]?

instance (paths : List Path) : Accumulates (Touches paths) where
  refl files := ⟨rfl, id, fun _ _ => rfl⟩
  trans first second := by
    refine ⟨second.host.trans first.host, second.wellFormed ∘ first.wellFormed, ?_⟩
    intro place apart
    rw [second.elsewhere place, first.elsewhere place apart]
    intro path member
    rw [placeFor_congr first.host]
    exact apart path member

theorem Touches.mono {paths more : List Path} {before after : FileSystem}
    (touches : Touches paths before after) (included : paths ⊆ more) :
    Touches more before after where
  host := touches.host
  wellFormed := touches.wellFormed
  elsewhere place apart := touches.elsewhere place fun path member => apart path (included member)

theorem Touches.within {root : Path} {paths : List Path} {before after : FileSystem}
    (touches : Touches paths before after) (near : ∀ path ∈ paths, Near root path) :
    Within root before after where
  host := touches.host
  wellFormed := touches.wellFormed
  elsewhere place apart leads := by
    refine touches.elsewhere place ?_
    rintro path member rfl
    exact ((near path member).placeFor before).elim apart leads

/-! ## What stays -/

/-- Neither path is at or below the other. -/
structure Apart (files : FileSystem) (first second : Path) : Prop where
  left : ¬files.placeFor first <+: files.placeFor second
  right : ¬files.placeFor second <+: files.placeFor first

theorem apart_of_steps {first second : Path} (sameBase : first.isAbsolute = second.isAbsolute)
    (left : ¬steps first <+: steps second) (right : ¬steps second <+: steps first)
    (files : FileSystem) : Apart files first second := by
  constructor <;> rw [placeFor, placeFor, baseOf, baseOf, sameBase, List.prefix_append_right_inj] <;>
    assumption

namespace Apart

variable {first second path : Path}

theorem symm (apart : Apart files first second) : Apart files second first :=
  ⟨apart.right, apart.left⟩

theorem below (apart : Apart files first second) (below : Below second path) :
    Apart files first path where
  left inside := by
    rcases List.prefix_or_prefix_of_prefix inside (below.placeFor files) with beyond | under
    · exact apart.left beyond
    · exact apart.right under
  right beyond := apart.right ((below.placeFor files).trans beyond)

theorem congr {before after : FileSystem}
    (same : after.host = before.host) (apart : Apart before first second) :
    Apart after first second := by
  have places := placeFor_congr same
  exact ⟨by rw [places, places]; exact apart.left, by rw [places, places]; exact apart.right⟩

theorem placeFor_ne (apart : Apart files first second) :
    files.placeFor first ≠ files.placeFor second := by
  intro same
  exact apart.left (same ▸ List.prefix_refl _)

end Apart

/-- From one tree to another nothing changes at or below the root. -/
structure Keeps (root : Path) (before after : FileSystem) : Prop where
  host : after.host = before.host
  wellFormed : before.WellFormed → after.WellFormed
  same : ∀ place : Place, before.placeFor root <+: place →
    after.entries[place]? = before.entries[place]?

instance (root : Path) : Accumulates (Keeps root) where
  refl _ := ⟨rfl, id, fun _ _ => rfl⟩
  trans first second := by
    refine ⟨second.host.trans first.host, second.wellFormed ∘ first.wellFormed, ?_⟩
    intro place inside
    rw [second.same place (by rwa [placeFor_congr first.host]), first.same place inside]

theorem Keeps.getElem? {root path : Path} {before after : FileSystem}
    (keeps : Keeps root before after) (below : Below root path) :
    after.entries[after.placeFor path]? = before.entries[before.placeFor path]? := by
  rw [placeFor_congr keeps.host, keeps.same _ (below.placeFor before)]

theorem Keeps.mono {root other : Path} {before after : FileSystem}
    (keeps : Keeps root before after) (below : Below root other) : Keeps other before after where
  host := keeps.host
  wellFormed := keeps.wellFormed
  same place inside := keeps.same place ((below.placeFor before).trans inside)

theorem keeps_setEntry {root : Path} {place : Place} {entry : Entry}
    (wellFormed : (files.setEntry place entry).WellFormed)
    (outside : ¬files.placeFor root <+: place) : Keeps root files (files.setEntry place entry) where
  host := rfl
  wellFormed _ := wellFormed
  same other inside := by
    rw [getElem?_setEntry, if_neg]
    rintro rfl
    exact outside inside

theorem Within.keeps {root other : Path} {before after : FileSystem}
    (within : Within root before after) (apart : Apart before root other) :
    Keeps other before after where
  host := within.host
  wellFormed := within.wellFormed
  same place inside := by
    refine within.elsewhere place ?_ fun leads => apart.right (inside.trans leads)
    intro below
    rcases List.prefix_or_prefix_of_prefix below inside with beyond | under
    · exact apart.left beyond
    · exact apart.right under

structure SameAt (path : Path) (before after : FileSystem) : Prop where
  host : after.host = before.host
  wellFormed : after.WellFormed
  same : after.entries[after.placeFor path]? = before.entries[before.placeFor path]?

structure GoneAt (path : Path) (before after : FileSystem) : Prop where
  host : after.host = before.host
  wellFormed : after.WellFormed
  gone : after.entries[after.placeFor path]? = none

def StaysAt (path : Path) (before after : FileSystem) : Prop :=
  before.WellFormed → SameAt path before after

def StaysOrGoes (path : Path) (before after : FileSystem) : Prop :=
  before.WellFormed → SameAt path before after ∨ GoneAt path before after

instance (path : Path) : Accumulates (StaysAt path) where
  refl _ := fun wellFormed => ⟨rfl, wellFormed, rfl⟩
  trans first second := by
    intro wellFormed
    have first := first wellFormed
    have second := second first.wellFormed
    exact ⟨second.host.trans first.host, second.wellFormed, second.same.trans first.same⟩

instance (path : Path) : Accumulates (StaysOrGoes path) where
  refl _ := fun wellFormed => .inl ⟨rfl, wellFormed, rfl⟩
  trans first second := by
    intro wellFormed
    rcases first wellFormed with same | gone
    · rcases second same.wellFormed with same' | gone
      · exact .inl ⟨same'.host.trans same.host, same'.wellFormed,
          same'.same.trans same.same⟩
      · exact .inr ⟨gone.host.trans same.host, gone.wellFormed, gone.gone⟩
    · rcases second gone.wellFormed with same | gone'
      · exact .inr ⟨same.host.trans gone.host, same.wellFormed,
          same.same.trans gone.gone⟩
      · exact .inr ⟨gone'.host.trans gone.host, gone'.wellFormed, gone'.gone⟩

theorem StaysAt.staysOrGoes {path : Path} {before after : FileSystem}
    (stays : StaysAt path before after) : StaysOrGoes path before after :=
  fun wellFormed => .inl (stays wellFormed)

theorem Keeps.staysAt {root path : Path} {before after : FileSystem}
    (keeps : Keeps root before after) (below : Below root path) : StaysAt path before after :=
  fun wellFormed => ⟨keeps.host, keeps.wellFormed wellFormed, keeps.getElem? below⟩

theorem staysAt_refusals (path : Path) (files : FileSystem) (refusals : List (Option IoFault)) :
    StaysAt path files { files with refusals } :=
  fun wellFormed => ⟨rfl, ⟨wellFormed.names, wellFormed.rooted, wellFormed.parents⟩, rfl⟩

theorem SameAt.entryOf_eq_ok {path : Path} {before after : FileSystem}
    (same : SameAt path before after) (wellFormed : before.WellFormed) (plain : path.Plain)
    {entry : Entry} : after.entryOf path = .ok entry ↔ before.entryOf path = .ok entry := by
  rw [FileSystem.entryOf_eq_ok same.wellFormed plain, FileSystem.entryOf_eq_ok wellFormed plain,
    same.same]

theorem SameAt.read_eq_ok {path : Path} {before after : FileSystem}
    (same : SameAt path before after) (wellFormed : before.WellFormed) (plain : path.Plain)
    {content : Bytes} : after.read path = .ok content ↔ before.read path = .ok content := by
  rw [FileSystem.read_eq_ok same.wellFormed plain, FileSystem.read_eq_ok wellFormed plain,
    same.same, placeFor_congr same.host, same.host]

theorem SameAt.pathExists {path : Path} {before after : FileSystem}
    (same : SameAt path before after) (wellFormed : before.WellFormed) (plain : path.Plain) :
    after.pathExists path ↔ before.pathExists path := by
  simp only [pathExists_iff, same.entryOf_eq_ok wellFormed plain]

theorem GoneAt.pathExists {path : Path} {before after : FileSystem} (gone : GoneAt path before after)
    (plain : path.Plain) : after.pathExists path = false := by
  rw [Bool.eq_false_iff]
  intro present
  obtain ⟨entry, found⟩ := pathExists_iff.mp present
  rw [FileSystem.entryOf_eq_ok gone.wellFormed plain, gone.gone] at found
  cases found.2

structure Leaves (path : Path) (before after : FileSystem) : Prop where
  host : after.host = before.host
  wellFormed : before.WellFormed → after.WellFormed
  stays : ∀ content, before.entries[before.placeFor path]? = some (.file content) →
    after.entries[after.placeFor path]? = some (.file content)

instance (path : Path) : Accumulates (Leaves path) where
  refl _ := ⟨rfl, id, fun _ => id⟩
  trans first second := ⟨second.host.trans first.host,
    second.wellFormed ∘ first.wellFormed,
    fun content found => second.stays content (first.stays content found)⟩

theorem Leaves.read {path : Path} {before after : FileSystem} (leaves : Leaves path before after)
    (wellFormed : before.WellFormed) (plain : path.Plain) {content : Bytes}
    (reads : before.read path = .ok content) : after.read path = .ok content := by
  obtain ⟨fits, found, readable⟩ := (read_eq_ok wellFormed plain).mp reads
  refine (read_eq_ok (leaves.wellFormed wellFormed) plain).mpr
    ⟨fits, leaves.stays content found, ?_⟩
  rwa [placeFor_congr leaves.host, leaves.host]

theorem Keeps.leaves {root path : Path} {before after : FileSystem}
    (keeps : Keeps root before after) (below : Below root path) : Leaves path before after where
  host := keeps.host
  wellFormed := keeps.wellFormed
  stays content found := by rwa [keeps.getElem? below]

theorem Touches.leaves {paths : List Path} {path : Path} {before after : FileSystem}
    (touches : Touches paths before after)
    (apart : ∀ other ∈ paths, before.placeFor path ≠ before.placeFor other) :
    Leaves path before after where
  host := touches.host
  wellFormed := touches.wellFormed
  stays content found := by
    rwa [placeFor_congr touches.host, touches.elsewhere _ apart]

structure Spares (path : Path) (before after : FileSystem) : Prop where
  host : after.host = before.host
  old : ∀ content, after.entries[after.placeFor path]? = some (.file content) →
    before.entries[before.placeFor path]? = some (.file content)

instance (path : Path) : Accumulates (Spares path) where
  refl _ := ⟨rfl, fun _ => id⟩
  trans first second := ⟨second.host.trans first.host,
    fun content found => first.old content (second.old content found)⟩

theorem Spares.read {path : Path} {before after : FileSystem} (spares : Spares path before after)
    (wellFormed : before.WellFormed) (wellFormedAfter : after.WellFormed) (plain : path.Plain)
    {content : Bytes} (reads : after.read path = .ok content) : before.read path = .ok content := by
  obtain ⟨fits, found, readable⟩ := (read_eq_ok wellFormedAfter plain).mp reads
  refine (read_eq_ok wellFormed plain).mpr ⟨fits, spares.old content found, ?_⟩
  rwa [placeFor_congr spares.host, spares.host] at readable

theorem Keeps.spares {root path : Path} {before after : FileSystem}
    (keeps : Keeps root before after) (below : Below root path) : Spares path before after where
  host := keeps.host
  old content found := by rwa [keeps.getElem? below] at found

theorem Clears.spares {root : Path} {before after : FileSystem} (clears : Clears root before after)
    (path : Path) : Spares path before after where
  host := clears.host
  old content found := by
    rw [placeFor_congr clears.host] at found
    exact clears.kept _ _ found

theorem Touches.spares {paths : List Path} {path : Path} {before after : FileSystem}
    (touches : Touches paths before after)
    (apart : ∀ other ∈ paths, before.placeFor path ≠ before.placeFor other) :
    Spares path before after where
  host := touches.host
  old content found := by
    rw [placeFor_congr touches.host] at found
    rwa [touches.elsewhere _ apart] at found

end AbiBuild.Files.FileSystem
