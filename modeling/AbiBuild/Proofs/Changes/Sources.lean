import AbiBuild.Proofs.Changes.CacheLayout
import AbiBuild.Proofs.Files.Locations

/-!
# The sources of a tree

A walk finds each file below a root once, under the one plain path that leads to it.  So the listed
sources are known by their paths, and reading one of them gives the content it is listed with.
-/

namespace AbiBuild

open Files FileSystem

namespace Files

variable {root path : Path}

theorem Path.Plain.eq_of_steps (plain : path.Plain) {other : Path} (plainOther : other.Plain)
    (sameBase : path.isAbsolute = other.isAbsolute) (same : steps path = steps other) :
    path = other := by
  refine plain.eq_of_location plainOther ?_
  rw [plain.location_eq, plainOther.location_eq, sameBase, same]

namespace FileSystem

variable {files : FileSystem}

theorem Below.exists_foldl_join (below : Below root path) (plain : root.Plain) :
    ∃ names : List String, (∀ name ∈ names, IsName name) ∧ path = names.foldl Path.join root := by
  obtain ⟨names, split⟩ := below.leads
  have isName : ∀ name ∈ names, IsName name :=
    fun name member => below.plain.2 name (by rw [← split]; exact List.mem_append_right _ member)
  have reached := (Below.refl plain).foldl_join isName
  refine ⟨names, isName, below.plain.eq_of_steps reached.plain ?_ ?_⟩
  · rw [below.sameBase, reached.sameBase]
  · rw [plain.steps_foldl_join isName, split]

theorem placeFor_foldl_join (plain : root.Plain) {names : List String}
    (isName : ∀ name ∈ names, IsName name) :
    files.placeFor (names.foldl Path.join root) = files.placeFor root ++ names := by
  rw [placeFor, placeFor, baseOf, baseOf, ((Below.refl plain).foldl_join isName).sameBase,
    plain.steps_foldl_join isName, List.append_assoc]

/-! ## Walks -/

/-- Nothing keeps a walk from going over an entry that it has come to. -/
def MayVisit (files : FileSystem) (wanted : Path → Bool) (root : Path) (place : Place)
    (reached : Place × Entry) : Prop :=
  reached.2 = .directory ∨ wanted (reached.1.foldl Path.join root) →
    files.host.unreadable[place ++ reached.1]? = none

theorem visit_eq_ok {wanted : Path → Bool} {place : Place} (reached : Place × Entry)
    (found : Path × Entry) : files.visit wanted root place reached = .ok found ↔
      files.MayVisit wanted root place reached ∧
        (reached.1.foldl Path.join root, reached.2) = found := by
  obtain ⟨there, entry⟩ := reached
  cases entry with
  | directory => simp [visit, MayVisit, bind_eq_ok, mapError_eq_ok, mayRead_eq_ok, pure, Except.pure]
  | file content =>
      by_cases needed : wanted (there.foldl Path.join root) <;>
        simp [visit, MayVisit, needed, bind_eq_ok, mayRead_eq_ok, pure, Except.pure]

theorem walk_eq_ok_iff {wanted : Path → Bool} {found : List (Path × Entry)} :
    files.walk wanted root = .ok found ↔
      ∃ place top, files.placeOf root = .ok place ∧ files.entryAt? place = some top ∧
        (∀ reached ∈ ([], top) :: files.below place, files.MayVisit wanted root place reached) ∧
        (([], top) :: files.below place).map (fun reached =>
          (reached.1.foldl Path.join root, reached.2)) = found := by
  rw [walk, bind_eq_ok]
  refine exists_congr fun place => ?_
  rw [mapError_eq_ok, exists_and_left]
  refine and_congr_right fun _ => ?_
  cases files.entryAt? place with
  | none => simp [throw, throwThe, MonadExceptOf.throw]
  | some top =>
      simp only [mapM_eq_ok_map visit_eq_ok]
      simp

theorem mem_cons_below {place there : Place} {top entry : Entry}
    (here : files.entryAt? place = some top) : (there, entry) ∈ ([], top) :: files.below place ↔
      files.entryAt? (place ++ there) = some entry := by
  rw [List.mem_cons, mem_below, Prod.mk.injEq]
  by_cases nothing : there = []
  · simp [nothing, here, eq_comm]
  · rw [entryAt?_of_ne_nil files (by simp [nothing])]
    simp [nothing]

theorem mem_cons_below_placeFor (plain : root.Plain) {there : Place} {top entry : Entry}
    (here : files.entries[files.placeFor root]? = some top) :
    (there, entry) ∈ ([], top) :: files.below (files.placeFor root) ↔
      files.entries[files.placeFor root ++ there]? = some entry := by
  rw [mem_cons_below ((entryAt?_of_ne_nil files (placeFor_ne_nil plain)).trans here),
    entryAt?_of_ne_nil files (by simp [placeFor_ne_nil plain])]

theorem walk_eq_ok (plain : root.Plain) {wanted : Path → Bool} {found : List (Path × Entry)} :
    files.walk wanted root = .ok found ↔ files.placeOf root = .ok (files.placeFor root) ∧
      ∃ top, files.entries[files.placeFor root]? = some top ∧
        (∀ reached ∈ ([], top) :: files.below (files.placeFor root),
          files.MayVisit wanted root (files.placeFor root) reached) ∧
        (([], top) :: files.below (files.placeFor root)).map (fun reached =>
          (reached.1.foldl Path.join root, reached.2)) = found := by
  rw [walk_eq_ok_iff]
  constructor
  · rintro ⟨place, top, leads, here, free, rfl⟩
    obtain ⟨-, rfl, -⟩ := (placeOf_eq_ok plain).mp leads
    rw [entryAt?_of_ne_nil files (placeFor_ne_nil plain)] at here
    exact ⟨leads, top, here, free, rfl⟩
  · rintro ⟨leads, top, here, free, rfl⟩
    rw [← entryAt?_of_ne_nil files (placeFor_ne_nil plain)] at here
    exact ⟨_, top, leads, here, free, rfl⟩

theorem mem_walk (wellFormed : files.WellFormed) (plain : root.Plain) {wanted : Path → Bool}
    {found : List (Path × Entry)} (walks : files.walk wanted root = .ok found) (path : Path)
    (entry : Entry) : (path, entry) ∈ found ↔
      Below root path ∧ files.entries[files.placeFor path]? = some entry := by
  obtain ⟨-, top, present, -, rfl⟩ := (walk_eq_ok plain).mp walks
  rw [List.mem_map]
  constructor
  · rintro ⟨⟨there, other⟩, listed, same⟩
    obtain ⟨rfl, rfl⟩ := Prod.mk.inj same
    rw [mem_cons_below_placeFor plain present] at listed
    have isName := wellFormed.isName_of_getElem? listed
    exact ⟨(Below.refl plain).foldl_join isName, by rwa [placeFor_foldl_join plain isName]⟩
  · rintro ⟨below, found⟩
    obtain ⟨names, isName, rfl⟩ := below.exists_foldl_join plain
    rw [placeFor_foldl_join plain isName] at found
    exact ⟨(names, entry), (mem_cons_below_placeFor plain present).mpr found, rfl⟩

theorem pairwise_location_walk (wellFormed : files.WellFormed) {wanted : Path → Bool}
    {found : List (Path × Entry)} (walks : files.walk wanted root = .ok found) :
    found.Pairwise fun first second => first.1.location ≠ second.1.location := by
  obtain ⟨place, top, -, -, -, rfl⟩ := walk_eq_ok_iff.mp walks
  have isName : ∀ entry ∈ ([], top) :: files.below place, ∀ name ∈ entry.1, IsName name := by
    rw [List.forall_mem_cons]
    refine ⟨by simp, ?_⟩
    rintro ⟨there, entry⟩ listed
    exact wellFormed.isName_of_getElem? ((mem_below ..).mp listed).2
  have distinct : (([], top) :: files.below place).Pairwise fun first second =>
      first.1 ≠ second.1 := by
    refine List.pairwise_cons.mpr ⟨?_, pairwise_below files place⟩
    rintro ⟨there, entry⟩ listed
    exact ((mem_below ..).mp listed).1.symm
  rw [List.pairwise_map]
  refine distinct.imp_of_mem fun hfirst hsecond different same => different ?_
  exact Path.eq_of_location_foldl_join (isName _ hfirst) (isName _ hsecond) same

end FileSystem

end Files

/-! ## Sources -/

namespace Changes

variable {files : FileSystem} {root : Path} {extension : String}
  {contents : List (String × Bytes)}

/-- The path leads to a source with this content. -/
structure IsSource (files : FileSystem) (root : Path) (extension : String) (path : Path)
    (content : Bytes) : Prop where
  below : Below root path
  extension : path.extension? = some extension
  found : files.entries[files.placeFor path]? = some (.file content)

theorem sourceContents_eq_ok :
    sourceContents files root extension = .ok contents ↔ ∃ found,
      files.walk (·.extension? = some extension) root = .ok found ∧
        found.filterMap (sourceContent? extension) = contents := by
  unfold sourceContents
  cases files.walk (·.extension? = some extension) root with
  | error fault => simp [Functor.map, Except.map]
  | ok found => simp [Functor.map, Except.map]

theorem sourceContent?_eq_some {entry : Path × Entry} {source : String × Bytes} :
    sourceContent? extension entry = some source ↔
      Path.extension? ⟨source.1⟩ = some extension ∧ entry = (⟨source.1⟩, .file source.2) := by
  obtain ⟨⟨text⟩, here⟩ := entry
  cases here with
  | directory => simp [sourceContent?]
  | file content =>
      simp only [sourceContent?, Option.ite_none_right_eq_some, Option.some.injEq, Prod.ext_iff,
        Files.Path.mk.injEq, Entry.file.injEq]
      constructor
      · rintro ⟨named, rfl, same⟩
        exact ⟨named, rfl, same⟩
      · rintro ⟨named, rfl, same⟩
        exact ⟨named, rfl, same⟩

theorem mem_sourceContents (wellFormed : files.WellFormed) (plain : root.Plain)
    (lists : sourceContents files root extension = .ok contents) (path : Path) (content : Bytes) :
    (path.text, content) ∈ contents ↔ IsSource files root extension path content := by
  obtain ⟨found, walks, rfl⟩ := sourceContents_eq_ok.mp lists
  rw [List.mem_filterMap]
  constructor
  · rintro ⟨entry, listed, taken⟩
    obtain ⟨named, rfl⟩ := sourceContent?_eq_some.mp taken
    obtain ⟨below, here⟩ := (mem_walk wellFormed plain walks _ _).mp listed
    exact ⟨below, named, here⟩
  · rintro ⟨below, named, here⟩
    exact ⟨(path, .file content), (mem_walk wellFormed plain walks _ _).mpr ⟨below, here⟩,
      sourceContent?_eq_some.mpr ⟨named, rfl⟩⟩

theorem readable_of_mem_sourceContents (wellFormed : files.WellFormed) (plain : root.Plain)
    (lists : sourceContents files root extension = .ok contents) {path : Path} {content : Bytes}
    (member : (path.text, content) ∈ contents) :
    files.host.unreadable[files.placeFor path]? = none := by
  obtain ⟨found, walks, rfl⟩ := sourceContents_eq_ok.mp lists
  obtain ⟨-, top, present, free, rfl⟩ := (walk_eq_ok plain).mp walks
  obtain ⟨entry, listed, taken⟩ := List.mem_filterMap.mp member
  obtain ⟨named, rfl⟩ := sourceContent?_eq_some.mp taken
  obtain ⟨⟨names, here⟩, inside, same⟩ := List.mem_map.mp listed
  obtain ⟨spelled, -⟩ := Prod.mk.inj same
  have isName := wellFormed.isName_of_getElem? ((mem_cons_below_placeFor plain present).mp inside)
  have readable := free _ inside (.inr (by rw [spelled]; exact decide_eq_true named))
  rwa [← placeFor_foldl_join plain isName, spelled] at readable

theorem pairwise_sourceContents (wellFormed : files.WellFormed)
    (lists : sourceContents files root extension = .ok contents) :
    contents.Pairwise fun first second => first.1 ≠ second.1 := by
  obtain ⟨found, walks, rfl⟩ := sourceContents_eq_ok.mp lists
  rw [List.pairwise_filterMap]
  refine (pairwise_location_walk wellFormed walks).imp ?_
  intro entry other different taken takes taken' takes' same
  obtain ⟨-, rfl⟩ := sourceContent?_eq_some.mp takes
  obtain ⟨-, rfl⟩ := sourceContent?_eq_some.mp takes'
  exact different (congrArg (fun text => Path.location ⟨text⟩) same)

theorem IsSource.congr {before after : FileSystem} (keeps : Keeps root before after) (path : Path)
    (content : Bytes) :
    IsSource after root extension path content ↔ IsSource before root extension path content := by
  constructor
  · intro source
    exact ⟨source.below, source.extension, by rw [← keeps.getElem? source.below, source.found]⟩
  · intro source
    exact ⟨source.below, source.extension, by rw [keeps.getElem? source.below, source.found]⟩

theorem exists_sourceContents {before after : FileSystem} (wellFormed : before.WellFormed)
    (plain : root.Plain) (keeps : Keeps root before after)
    (lists : sourceContents before root extension = .ok contents) :
    ∃ found, sourceContents after root extension = .ok found ∧
      ∀ source, source ∈ found ↔ source ∈ contents := by
  obtain ⟨walked, walks, -⟩ := sourceContents_eq_ok.mp lists
  obtain ⟨leads, top, present, free, -⟩ := (walk_eq_ok plain).mp walks
  have free' : ∀ reached ∈ ([], top) :: after.below (after.placeFor root),
      after.MayVisit (·.extension? = some extension) root (after.placeFor root) reached := by
    rintro ⟨there, entry⟩ member
    rw [mem_cons_below_placeFor plain (by rw [keeps.getElem? (.refl plain), present]),
      placeFor_congr keeps.host, keeps.same _ (List.prefix_append ..)] at member
    rw [MayVisit, keeps.host, placeFor_congr keeps.host]
    exact free _ ((mem_cons_below_placeFor plain present).mpr member)
  rw [← keeps.getElem? (.refl plain)] at present
  have placed := placeOf_eq_placeFor (keeps.wellFormed wellFormed) plain
    ((placeOf_eq_ok plain).mp leads).1 present
  obtain ⟨found, again⟩ : ∃ found, sourceContents after root extension = .ok found :=
    ⟨_, sourceContents_eq_ok.mpr ⟨_, (walk_eq_ok plain).mpr ⟨placed, top, present, free', rfl⟩, rfl⟩⟩
  refine ⟨found, again, ?_⟩
  rintro ⟨text, content⟩
  have now := mem_sourceContents (keeps.wellFormed wellFormed) plain again ⟨text⟩ content
  have then' := mem_sourceContents wellFormed plain lists ⟨text⟩ content
  rw [now, then', IsSource.congr keeps]

end Changes

end AbiBuild
