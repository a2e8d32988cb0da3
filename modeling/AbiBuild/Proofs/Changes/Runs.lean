import Mathlib.Logic.Relation
import AbiBuild.Proofs.Changes.Detector
import AbiBuild.Proofs.Files.Reading
import AbiBuild.Proofs.Files.Removing

/-!
# Sources over many runs

Runs look at the sources, and save their digests, clear them or do neither, while the tree is edited
in between.  What is stored are always the digests of the last tree that was saved and not cleared
since, so the states tell how the sources stand to that tree, however the paths are spelled.
-/

namespace AbiBuild

open Files FileSystem MessagePack

/-! ## Sources by any path -/

namespace Files.FileSystem

variable {files : FileSystem} {root : Path}

theorem WellFormed.isName_of_entryAt? (wellFormed : files.WellFormed) {place names : Place}
    {entry : Entry} (here : files.entryAt? (place ++ names) = some entry) :
    ∀ name ∈ names, IsName name := by
  intro name member
  rw [entryAt?_of_ne_nil _ (by rintro empty; simp_all)] at here
  exact wellFormed.isName_of_getElem? here name member

theorem text_join_ne (base : Path) {name : String} (isName : IsName name) :
    (base.join name).text ≠ "" := by
  have nonempty := isName.nonempty
  rw [Path.join]
  split
  next slash => exact nonempty
  next => split <;> simp_all

def Untouched (path : Path) (before after : FileSystem) : Prop :=
  Leaves path before after ∧ Spares path before after

instance (path : Path) : Accumulates (Untouched path) where
  refl _ := ⟨Accumulates.refl _, Accumulates.refl _⟩
  trans first second :=
    ⟨Accumulates.trans first.1 second.1, Accumulates.trans first.2 second.2⟩

theorem Untouched.read_eq_ok {path : Path} {before after : FileSystem}
    (untouched : Untouched path before after) (wellFormed : before.WellFormed) (plain : path.Plain)
    (content : Bytes) : after.read path = .ok content ↔ before.read path = .ok content := by
  exact ⟨untouched.2.read wellFormed (untouched.1.wellFormed wellFormed) plain,
    untouched.1.read wellFormed plain⟩

theorem Touches.untouched {paths : List Path} {path : Path} {before after : FileSystem}
    (touches : Touches paths before after)
    (apart : ∀ other ∈ paths, before.placeFor path ≠ before.placeFor other) :
    Untouched path before after :=
  ⟨touches.leaves apart, touches.spares apart⟩

theorem moves_makeDirectories_untouched {path : Path} (plain : path.Plain) (other : Path) :
    Moves (Untouched other) (makeDirectories path) := fun files =>
  (moves_makeDirectories_leaves plain other files).and (moves_makeDirectories_spares plain other files)

end Files.FileSystem

namespace Changes

variable {files : FileSystem} {root path other : Path} {extension : String} {content : Bytes}
  {contents : List (String × Bytes)}

structure HasSource (files : FileSystem) (root : Path) (extension : String) (path : Path)
    (content : Bytes) : Prop where
  extension : path.extension? = some extension
  found : ∃ place names, files.placeOf root = .ok place ∧ path = names.foldl Path.join root ∧
    files.entryAt? (place ++ names) = some (.file content)

theorem mem_sourceContents_iff (lists : sourceContents files root extension = .ok contents) :
    (path.text, content) ∈ contents ↔ HasSource files root extension path content := by
  obtain ⟨found, walks, rfl⟩ := sourceContents_eq_ok.mp lists
  obtain ⟨place, top, leads, here, -, rfl⟩ := walk_eq_ok_iff.mp walks
  rw [List.mem_filterMap]
  constructor
  · rintro ⟨entry, member, taken⟩
    obtain ⟨named, rfl⟩ := sourceContent?_eq_some.mp taken
    obtain ⟨⟨there, other⟩, inside, same⟩ := List.mem_map.mp member
    obtain ⟨spelled, rfl⟩ := Prod.mk.inj same
    exact ⟨named, place, there, leads, spelled.symm, (mem_cons_below here).mp inside⟩
  · rintro ⟨named, start, names, leads', rfl, there⟩
    obtain rfl : start = place := Except.ok.inj (leads'.symm.trans leads)
    exact ⟨(names.foldl Path.join root, .file content),
      List.mem_map.mpr ⟨(names, .file content), (mem_cons_below here).mpr there, rfl⟩,
      sourceContent?_eq_some.mpr ⟨named, rfl⟩⟩

/-- The tree below a root can be gone through: the root is there, the directories can be listed and
the sources can be read. -/
structure Walkable (files : FileSystem) (root : Path) (extension : String) : Prop where
  present : ∃ top, files.entryOf root = .ok top
  readable : ∀ place names entry, files.placeOf root = .ok place →
    files.entryAt? (place ++ names) = some entry →
    entry = .directory ∨ (names.foldl Path.join root).extension? = some extension →
      files.host.unreadable[place ++ names]? = none

theorem exists_sourceContents_iff : (∃ contents, sourceContents files root extension = .ok contents) ↔
    Walkable files root extension := by
  constructor
  · rintro ⟨contents, lists⟩
    obtain ⟨found, walks, -⟩ := sourceContents_eq_ok.mp lists
    obtain ⟨place, top, leads, here, free, -⟩ := walk_eq_ok_iff.mp walks
    refine ⟨⟨top, entryOf_eq_ok_iff.mpr ⟨place, leads, here⟩⟩, ?_⟩
    intro start names entry leads' there needed
    obtain rfl : start = place := Except.ok.inj (leads'.symm.trans leads)
    exact free (names, entry) ((mem_cons_below here).mpr there) (by simpa using needed)
  · rintro ⟨⟨top, found⟩, readable⟩
    obtain ⟨place, leads, here⟩ := entryOf_eq_ok_iff.mp found
    refine ⟨_, sourceContents_eq_ok.mpr ⟨_, walk_eq_ok_iff.mpr ⟨place, top, leads, here, ?_, rfl⟩, rfl⟩⟩
    rintro ⟨names, entry⟩ listed needed
    exact readable place names entry leads ((mem_cons_below here).mp listed) (by simpa using needed)

theorem HasSource.eq_of_location {files' : FileSystem} {content' : Bytes}
    (wellFormed : files.WellFormed) (wellFormed' : files'.WellFormed)
    (source : HasSource files root extension path content)
    (source' : HasSource files' root extension other content')
    (same : path.location = other.location) : path = other := by
  obtain ⟨-, place, names, -, rfl, here⟩ := source
  obtain ⟨-, place', names', -, rfl, here'⟩ := source'
  rw [Path.eq_of_location_foldl_join (wellFormed.isName_of_entryAt? here)
    (wellFormed'.isName_of_entryAt? here') same]

/-! ## Saving -/

namespace Detector

variable {detector : Detector} {pair : RootPair} {world : World}

def sourcesFileOf (detector : Detector) (pair : RootPair) (files : FileSystem) : Path :=
  (detector.directoryOf pair files).join sourcesFile

theorem text_directoryOf_ne (detector : Detector) (pair : RootPair) (files : FileSystem) :
    (detector.directoryOf pair files).text ≠ "" :=
  text_join_ne _ (pair.isName_key _)

theorem moves_save_sameHome (detector : Detector) (pair : RootPair) :
    Moves (OnFiles SameHome) (detector.save pair) := by
  intro world
  rw [save, ends_bind, ends_stateDirectory]
  refine Moves.bind (moves_change (moves_makeDirectories_sameHome _)) (fun _ => ?_) world
  have replaces : ∀ path content,
      Moves (OnFiles SameHome) (BuildAction.change (replaceFile path content)) :=
    fun _ _ => moves_change (moves_replaceFile_sameHome _ _)
  cases detector.classpathDigest with
  | none =>
      cases detector.sourceDigests with
      | none => exact Moves.pure ()
      | some digests => exact replaces _ _
  | some digest =>
      refine Moves.bind (replaces _ _) fun _ => ?_
      cases detector.sourceDigests with
      | none => exact Moves.pure ()
      | some digests => exact replaces _ _

theorem ends_save_sources {digests : SourceDigests}
    (computed : detector.sourceDigests = some digests) :
    Ends (detector.save pair) world
      (fun _ next => next.files.entryOf (detector.sourcesFileOf pair world.files) =
        .ok (.file (encodeDigests digests))) (fun _ _ => True) := by
  simp only [save, ends_bind, ends_stateDirectory, ends_change, computed]
  rw [sourcesFileOf]
  generalize detector.directoryOf pair world.files = directory
  refine (ends_true _ _).imp (fun _ made _ => ?_) fun _ _ _ => trivial
  cases detector.classpathDigest with
  | none =>
      rw [ends_change]
      exact ends_replaceFile_entryOf _ _ made
  | some digest =>
      rw [ends_bind]
      refine (ends_true _ _).imp (fun _ middle _ => ?_) fun _ _ _ => trivial
      rw [ends_change]
      exact ends_replaceFile_entryOf _ _ middle.files

theorem untouched_beside {directory : Path} (plain : directory.Plain) {names : List String}
    (beside : ∀ name ∈ names, IsName name ∧ sourcesFile ≠ name) {files next : FileSystem}
    (touches : Touches (names.map directory.join) files next) :
    Untouched (directory.join sourcesFile) files next := by
  have own : IsName sourcesFile := by constructor <;> decide
  refine touches.untouched fun other member same => ?_
  obtain ⟨name, listed, rfl⟩ := List.mem_map.mp member
  rw [placeFor_join plain own.whole, placeFor_join plain (beside name listed).1.whole,
    List.append_cancel_left_eq, List.singleton_inj] at same
  exact (beside name listed).2 same

theorem ends_save_unsaved (plain : detector.root.Plain) :
    Ends (detector.save pair) world (fun _ _ => True) fun _ next =>
      Untouched (detector.sourcesFileOf pair world.files) world.files next.files := by
  have below : Below detector.root (detector.directoryOf pair world.files) :=
    below_directoryOf plain _
  simp only [save, ends_bind, ends_stateDirectory, ends_change]
  rw [sourcesFileOf]
  generalize detector.directoryOf pair world.files = directory at below
  have classpathStem : IsName "classpath_hash" := by constructor <;> decide
  have sourcesStem : IsName "sources_hash" := by constructor <;> decide
  have named : ∀ name ∈ ["classpath_hash.tmp", "classpath_hash.bin", "sources_hash.tmp"],
      IsName name ∧ sourcesFile ≠ name := by
    simp only [List.mem_cons, List.not_mem_nil, or_false, forall_eq_or_imp, forall_eq]
    refine ⟨⟨?_, by decide⟩, ⟨?_, by decide⟩, ?_, by decide⟩ <;> constructor <;> decide
  have beside : ∀ {paths : List Path} {files next : FileSystem}, Touches paths files next →
      paths ⊆ ["classpath_hash.tmp", "classpath_hash.bin", "sources_hash.tmp"].map directory.join →
        Untouched (directory.join sourcesFile) files next :=
    fun touches listed => untouched_beside below.plain named (touches.mono listed)
  have sources : ∀ (digests : SourceDigests) (middle : World),
      Untouched (directory.join sourcesFile) world.files middle.files →
      Ends (BuildAction.change (replaceFile (directory.join sourcesFile) (encodeDigests digests)))
        middle (fun _ _ => True)
        fun _ next => Untouched (directory.join sourcesFile) world.files next.files := by
    intro digests middle untouched
    rw [ends_change]
    exact (ends_replaceFile_join below.plain sourcesStem _ middle.files).imp
      (fun _ _ _ => trivial)
      fun _ _ touches => Accumulates.trans untouched (beside touches (by simp))
  refine (moves_makeDirectories_untouched below.plain _ world.files).imp ?_
    fun _ _ untouched => untouched
  intro _ made untouched
  cases detector.classpathDigest with
  | none =>
      cases detector.sourceDigests with
      | none => trivial
      | some digests => exact sources digests _ untouched
  | some digest =>
      rw [ends_bind, ends_change]
      refine (ends_replaceFile_join below.plain classpathStem _ made).imp ?_ ?_
      · rintro _ next ⟨touches, -⟩
        have kept := Accumulates.trans untouched (beside touches (by simp))
        cases detector.sourceDigests with
        | none => trivial
        | some digests => exact sources digests _ kept
      · intro _ next touches
        exact Accumulates.trans untouched (beside touches (by simp))

theorem ends_sourceStates_walkable (detector : Detector) (pair : RootPair) (world : World)
    (extension : String) :
    Ends (detector.sourceStates pair extension) world
      (fun _ _ => Walkable world.files pair.source extension)
      fun error _ => (∃ fault, error = .io fault) ∧ ¬Walkable world.files pair.source extension := by
  simp only [sourceStates, ends_bind, ends_consult, ends_stateDirectory, ends_pure,
    ← exists_sourceContents_iff]
  cases lists : sourceContents world.files pair.source extension with
  | ok contents =>
      simp only [Except.mapError]
      generalize detector.directoryOf pair world.files = directory
      exact (ends_readState digestsReader _ world).imp (fun _ _ _ => ⟨contents, rfl⟩)
        fun _ _ => False.elim
  | error fault => simp [Except.mapError]

theorem ends_clear_sources (detector : Detector) (pair : RootPair) (world : World) :
    Ends (detector.clear pair) world
      (fun _ next => SameHome world.files next.files ∧ (some .notFound ∉ world.files.refusals →
        (next.files.read (detector.sourcesFileOf pair world.files)).toOption = none))
      (fun _ next => SameHome world.files next.files ∧
        ((next.files.read (detector.sourcesFileOf pair world.files)).toOption =
            (world.files.read (detector.sourcesFileOf pair world.files)).toOption ∨
          (next.files.read (detector.sourcesFileOf pair world.files)).toOption = none)) := by
  have unread : ∀ {files : FileSystem} {directory : Path}, Unread directory sourcesFile files →
      (files.read (directory.join sourcesFile)).toOption = none := by
    intro files directory unread
    cases reads : files.read (directory.join sourcesFile) with
    | ok content => exact absurd reads (unread content)
    | error fault => rfl
  simp only [clear, ends_bind, ends_stateDirectory, ends_change]
  have own : IsName sourcesFile := by constructor <;> decide
  refine (ends_removeTree_read (text_directoryOf_ne detector pair world.files) own world.files).imp
    ?_ ?_
  · rintro _ next ⟨home, gone⟩
    exact ⟨home, fun honest => unread (gone honest)⟩
  · rintro _ next ⟨home, kept | gone⟩
    · exact ⟨home, .inl (congrArg _ kept)⟩
    · exact ⟨home, .inr (unread gone)⟩

end Detector

/-! ## Histories -/

structure Watch where
  root : Path
  pair : RootPair
  extension : String

/-- Where a history of runs has come to: besides the world and the detector of the current run, the
tree at which that run has looked, and the last tree that was saved and not cleared since. -/
structure Moment where
  world : World
  detector : Detector
  looked : Option FileSystem
  saved : Option FileSystem

namespace Watch

variable (watch : Watch)

/-- The detector with which a run starts. -/
def fresh : Detector := { root := watch.root }

def fileOf (files : FileSystem) : Path := watch.fresh.sourcesFileOf watch.pair files

/-- The digests of the sources that a run would find stored. -/
def recorded (files : FileSystem) : Option SourceDigests :=
  stored? digestsReader files (watch.fileOf files)

abbrev Finds (files : FileSystem) (path : Path) (content : Bytes) : Prop :=
  HasSource files watch.pair.source watch.extension path content

structure Undisturbed (before after : FileSystem) : Prop where
  home : after.directory = before.directory
  kept : (after.read (watch.fileOf after)).toOption = (before.read (watch.fileOf before)).toOption

/-- What comes next in a history: an edit, a new run, or a call of the detector, which may fail. -/
inductive Follows : Moment → Moment → Prop
  | edited {moment : Moment} {world : World}
      (undisturbed : watch.Undisturbed moment.world.files world.files) :
      Follows moment { moment with world }
  | began {moment : Moment} :
      Follows moment { moment with detector := watch.fresh, looked := none }
  | looked {moment : Moment} {states : PathMap SourceState} {detector : Detector} {world : World}
      (wellFormed : moment.world.files.WellFormed)
      (looks : moment.detector.sourceStates watch.pair watch.extension moment.world =
        .ok (states, detector) world) :
      Follows moment { moment with world, detector, looked := some moment.world.files }
  | unlooked {moment : Moment} {error : BuildError} {world : World}
      (fails : moment.detector.sourceStates watch.pair watch.extension moment.world =
        .error error world) :
      Follows moment { moment with world }
  | asked {moment : Moment} {classpath : List Path} {changed : Bool} {detector : Detector}
      {world : World} (asks : moment.detector.classpathChanged watch.pair classpath moment.world =
        .ok (changed, detector) world) :
      Follows moment { moment with world, detector }
  | saved {moment : Moment} {tree : FileSystem} {world : World}
      (looked : moment.looked = some tree)
      (storable : ∀ digests ∈ moment.detector.sourceDigests, Storable digests)
      (saves : moment.detector.save watch.pair moment.world = .ok () world) {octets : Bytes}
      (reads : world.files.read (watch.fileOf world.files) = .ok octets) :
      Follows moment { moment with world, saved := some tree }
  | unsaved {moment : Moment} {error : BuildError} {world : World}
      (plain : watch.root.Plain) (wellFormed : moment.world.files.WellFormed)
      (fails : moment.detector.save watch.pair moment.world = .error error world) :
      Follows moment { moment with world }
  | cleared {moment : Moment} {world : World}
      (honest : some .notFound ∉ moment.world.files.refusals)
      (clears : moment.detector.clear watch.pair moment.world = .ok () world) :
      Follows moment { moment with world, saved := none }
  /-- A failing call may have taken the digests before it failed. -/
  | uncleared {moment : Moment} {error : BuildError} {world : World}
      (fails : moment.detector.clear watch.pair moment.world = .error error world) :
      Follows moment { moment with
        world, saved := if (watch.recorded world.files).isSome then moment.saved else none }

def Digests (tree : FileSystem) (digests : SourceDigests) : Prop :=
  tree.WellFormed ∧ ∃ contents,
    sourceContents tree watch.pair.source watch.extension = .ok contents ∧
    digests = digestsOf contents

structure OnRecord (moment : Moment) : Prop where
  root : moment.detector.root = watch.root
  looked : Option.Rel watch.Digests moment.looked moment.detector.sourceDigests
  saved : Option.Rel watch.Digests moment.saved (watch.recorded moment.world.files)

variable {watch} {moment next : Moment} {before after : FileSystem}

theorem recorded_congr (undisturbed : watch.Undisturbed before after) :
    watch.recorded after = watch.recorded before := by
  rw [recorded, recorded, stored?, stored?, undisturbed.kept]

theorem fileOf_congr (home : after.directory = before.directory) :
    watch.fileOf after = watch.fileOf before := by
  rw [fileOf, fileOf, Detector.sourcesFileOf, Detector.sourcesFileOf, Detector.directoryOf,
    Detector.directoryOf, home]

theorem OnRecord.sourcesFileOf (known : watch.OnRecord moment) (files : FileSystem) :
    moment.detector.sourcesFileOf watch.pair files = watch.fileOf files := by
  rw [fileOf, Detector.sourcesFileOf, Detector.sourcesFileOf, Detector.directoryOf,
    Detector.directoryOf, known.root, fresh]

theorem OnRecord.undisturbed (known : watch.OnRecord moment)
    (undisturbed : watch.Undisturbed moment.world.files after) :
    Option.Rel watch.Digests moment.saved (watch.recorded after) := by
  rw [recorded_congr undisturbed]
  exact known.saved

theorem OnRecord.unchanged (known : watch.OnRecord moment) (same : after = moment.world.files) :
    Option.Rel watch.Digests moment.saved (watch.recorded after) :=
  same ▸ known.saved

theorem OnRecord.save (known : watch.OnRecord moment) {tree : FileSystem} {world : World}
    (looked : moment.looked = some tree)
    (storable : ∀ digests ∈ moment.detector.sourceDigests, Storable digests)
    (saves : moment.detector.save watch.pair moment.world = .ok () world) {octets : Bytes}
    (reads : world.files.read (watch.fileOf world.files) = .ok octets) :
    Option.Rel watch.Digests (some tree) (watch.recorded world.files) := by
  have digests := known.looked
  rw [looked] at digests
  cases computed : moment.detector.sourceDigests with
  | none =>
      rw [computed] at digests
      cases digests
  | some digests' =>
      rw [computed] at digests
      have home : SameHome moment.world.files world.files :=
        (Detector.moves_save_sameHome moment.detector watch.pair moment.world).of_ok saves
      have written := (Detector.ends_save_sources computed).of_ok saves
      rw [known.sourcesFileOf, ← fileOf_congr home.directory] at written
      obtain rfl := Entry.file.inj (Except.ok.inj ((entryOf_of_read reads).symm.trans written))
      have stored := decodeState_of_storable (storable digests' computed)
      rw [recorded, stored?, reads]
      simpa [Except.toOption, stored] using digests

theorem OnRecord.save_error (known : watch.OnRecord moment) {error : BuildError} {world : World}
    (plain : watch.root.Plain) (wellFormed : moment.world.files.WellFormed)
    (fails : moment.detector.save watch.pair moment.world = .error error world) :
    watch.Undisturbed moment.world.files world.files := by
  have home : SameHome moment.world.files world.files :=
    (Detector.moves_save_sameHome moment.detector watch.pair moment.world).of_error fails
  rw [← known.root] at plain
  have own : IsName sourcesFile := by constructor <;> decide
  have below : Below moment.detector.root
      (moment.detector.directoryOf watch.pair moment.world.files) :=
    Detector.below_directoryOf plain _
  have reads := ((Detector.ends_save_unsaved plain).of_error fails).read_eq_ok wellFormed
    (below.join own).plain
  rw [known.sourcesFileOf] at reads
  exact ⟨home.directory, by rw [fileOf_congr home.directory]; exact toOption_congr reads⟩

theorem OnRecord.clear (known : watch.OnRecord moment) {world : World}
    (honest : some .notFound ∉ moment.world.files.refusals)
    (clears : moment.detector.clear watch.pair moment.world = .ok () world) :
    watch.recorded world.files = none := by
  obtain ⟨home, gone⟩ := (Detector.ends_clear_sources ..).of_ok clears
  rw [known.sourcesFileOf, ← fileOf_congr home.directory] at gone
  rw [recorded, stored?, gone honest]
  rfl

theorem OnRecord.clear_error (known : watch.OnRecord moment) {error : BuildError} {world : World}
    (fails : moment.detector.clear watch.pair moment.world = .error error world) :
    Option.Rel watch.Digests
      (if (watch.recorded world.files).isSome then moment.saved else none)
      (watch.recorded world.files) := by
  obtain ⟨home, kept | gone⟩ := (Detector.ends_clear_sources ..).of_error fails
  · rw [known.sourcesFileOf] at kept
    have saved := known.undisturbed
      ⟨home.directory, by rw [fileOf_congr home.directory]; exact kept⟩
    split
    next => exact saved
    next missing =>
      rw [Option.not_isSome_iff_eq_none.mp missing]
      exact .none
  · rw [known.sourcesFileOf, ← fileOf_congr home.directory] at gone
    have missing : watch.recorded world.files = none := by
      rw [recorded, stored?, gone]
      rfl
    rw [missing]
    exact .none

theorem Follows.onRecord (follows : watch.Follows moment next) (known : watch.OnRecord moment) :
    watch.OnRecord next := by
  cases follows with
  | edited edit => exact ⟨known.root, known.looked, known.undisturbed edit⟩
  | began => exact ⟨rfl, .none, known.saved⟩
  | looked wellFormed looks =>
      obtain ⟨same, contents, lists, found⟩ := (Detector.ends_sourceStates ..).of_ok looks
      obtain ⟨-, rfl⟩ := Prod.mk.inj found
      exact ⟨known.root, .some ⟨wellFormed, contents, lists, rfl⟩, known.unchanged same⟩
  | unlooked fails =>
      have same := (Detector.ends_sourceStates ..).of_error fails
      exact ⟨known.root, known.looked, known.unchanged same⟩
  | asked asks =>
      obtain ⟨same, digest, found⟩ := (Detector.ends_classpathChanged ..).of_ok asks
      obtain ⟨-, rfl⟩ := Prod.mk.inj found
      exact ⟨known.root, known.looked, known.unchanged same⟩
  | saved looked storable saves reads =>
      exact ⟨known.root, known.looked, known.save looked storable saves reads⟩
  | unsaved plain wellFormed fails =>
      exact ⟨known.root, known.looked, known.undisturbed (known.save_error plain wellFormed fails)⟩
  | cleared honest clears =>
      exact ⟨known.root, known.looked, by rw [known.clear honest clears]; exact .none⟩
  | uncleared fails =>
      refine ⟨known.root, known.looked, ?_⟩
      dsimp only
      exact known.clear_error fails

theorem onRecord_of_history {world : World} (unrecorded : watch.recorded world.files = none)
    (history : Relation.ReflTransGen watch.Follows ⟨world, watch.fresh, none, none⟩ moment) :
    watch.OnRecord moment := by
  induction history with
  | refl => exact ⟨rfl, .none, by rw [unrecorded]; exact .none⟩
  | tail _ follows known => exact follows.onRecord known

/-! ## Answers -/

/-- How a source stands to the tree that was saved, if there is one. -/
inductive Differs (watch : Watch) (saved : Option FileSystem) (now : FileSystem) (path : Path) :
    SourceState → Prop
  | added {content : Bytes} (fresh : ∀ tree ∈ saved, ∀ old, ¬watch.Finds tree path old)
      (present : watch.Finds now path content) : Differs watch saved now path .added
  | removed {tree : FileSystem} {content : Bytes} (known : tree ∈ saved)
      (old : watch.Finds tree path content) (gone : ∀ new, ¬watch.Finds now path new) :
      Differs watch saved now path .removed
  | changed {tree : FileSystem} {before after : Bytes} (known : tree ∈ saved)
      (old : watch.Finds tree path before) (present : watch.Finds now path after)
      (different : before ≠ after) : Differs watch saved now path .changed
  | notChanged {tree : FileSystem} {content : Bytes} (known : tree ∈ saved)
      (old : watch.Finds tree path content) (present : watch.Finds now path content) :
      Differs watch saved now path .notChanged

theorem standsBetween_iff {saved : Option FileSystem} {now : FileSystem} {path : Path}
    {before after : List (String × Bytes)}
    (known : ∀ content, (path.text, content) ∈ before ↔ ∃ tree ∈ saved, watch.Finds tree path content)
    (present : ∀ content, (path.text, content) ∈ after ↔ watch.Finds now path content)
    {state : SourceState} :
    StandsBetween before after path.text state ↔ watch.Differs saved now path state := by
  constructor
  · rintro (⟨fresh, here⟩ | ⟨listed, gone⟩ | ⟨listed, here, different⟩ | ⟨listed, here⟩)
    · exact .added (fun tree member old finds => fresh old ((known old).mpr ⟨tree, member, finds⟩))
        ((present _).mp here)
    · obtain ⟨tree, member, finds⟩ := (known _).mp listed
      exact .removed member finds fun new here => gone new ((present new).mpr here)
    · obtain ⟨tree, member, finds⟩ := (known _).mp listed
      exact .changed member finds ((present _).mp here) different
    · obtain ⟨tree, member, finds⟩ := (known _).mp listed
      exact .notChanged member finds ((present _).mp here)
  · rintro (⟨fresh, here⟩ | ⟨member, old, gone⟩ | ⟨member, old, here, different⟩ | ⟨member, old, here⟩)
    · refine .added (fun old listed => ?_) ((present _).mpr here)
      obtain ⟨tree, member, finds⟩ := (known old).mp listed
      exact fresh tree member old finds
    · exact .removed ((known _).mpr ⟨_, member, old⟩) fun new listed =>
        gone new ((present new).mp listed)
    · exact .changed ((known _).mpr ⟨_, member, old⟩) ((present _).mpr here) different
    · exact .notChanged ((known _).mpr ⟨_, member, old⟩) ((present _).mpr here)

theorem OnRecord.exists_contents (known : watch.OnRecord moment) : ∃ before : List (String × Bytes),
    (watch.recorded moment.world.files).getD ∅ = digestsOf before ∧
    before.Pairwise (fun first second => first.1 ≠ second.1) ∧
    (∀ tree ∈ moment.saved, tree.WellFormed) ∧
    ∀ path content, (path.text, content) ∈ before ↔
      ∃ tree ∈ moment.saved, watch.Finds tree path content := by
  have saved := known.saved
  generalize watch.recorded moment.world.files = recorded, moment.saved = tree? at saved
  cases saved with
  | none => exact ⟨[], rfl, .nil, by simp, by simp⟩
  | @some tree digests holds =>
      obtain ⟨wellFormed, contents, lists, rfl⟩ := holds
      refine ⟨contents, rfl, pairwise_sourceContents wellFormed lists, ?_, ?_⟩
      · simpa using wellFormed
      · intro path content
        rw [mem_sourceContents_iff lists]
        simp

/-- However runs, edits and failures have followed each other, the states are how the sources stand to
the last tree that was saved and not cleared since, each source with one state.  They are told exactly
where the tree below the root can be gone through. -/
theorem states_are_the_difference {world : World} (unrecorded : watch.recorded world.files = none)
    (history : Relation.ReflTransGen watch.Follows ⟨world, watch.fresh, none, none⟩ moment)
    (wellFormed : moment.world.files.WellFormed)
    (apart : ∀ tree ∈ moment.saved, ∀ path old new, watch.Finds tree path old →
      watch.Finds moment.world.files path new →
        Digest.Xxh3.digest old = Digest.Xxh3.digest new → old = new) :
    Ends (moment.detector.sourceStates watch.pair watch.extension) moment.world
      (fun found next => next.files = moment.world.files ∧
        Walkable moment.world.files watch.pair.source watch.extension ∧
        (∀ path state, (path, state) ∈ found.1.toList ↔
          watch.Differs moment.saved moment.world.files path state) ∧
        found.1.toList.Pairwise fun first second => first.1 ≠ second.1)
      (fun error next => next.files = moment.world.files ∧ (∃ fault, error = .io fault) ∧
        ¬Walkable moment.world.files watch.pair.source watch.extension) := by
  have known := onRecord_of_history unrecorded history
  obtain ⟨before, stored, distinct, wellFormedBefore, listed⟩ := known.exists_contents
  refine ((Detector.ends_sourceStates ..).and (Detector.ends_sourceStates_walkable ..)).imp ?_
    fun _ _ ended => ended
  rintro _ next ⟨⟨same, contents, lists, rfl⟩, walkable⟩
  have present : ∀ path content, (path.text, content) ∈ contents ↔
      watch.Finds moment.world.files path content := fun _ _ => mem_sourceContents_iff lists
  have known' : ∀ text, (∃ content, (text, content) ∈ before ∨ (text, content) ∈ contents) →
      ∃ tree content, tree.WellFormed ∧ watch.Finds tree ⟨text⟩ content := by
    rintro text ⟨content, old | new⟩
    · obtain ⟨tree, saved, finds⟩ := (listed ⟨text⟩ content).mp old
      exact ⟨tree, content, wellFormedBefore tree saved, finds⟩
    · exact ⟨_, content, wellFormed, (present ⟨text⟩ content).mp new⟩
  refine ⟨same, walkable, fun path state => ?_, ?_⟩
  · have file := known.sourcesFileOf moment.world.files
    rw [Detector.sourcesFileOf] at file
    dsimp only
    rw [file, ← recorded, stored, mem_statesBetween_digestsOf_of_located distinct
      (pairwise_sourceContents wellFormed lists),
      standsBetween_iff (listed path) (present path)]
    · intro first second hfirst hsecond different equal
      obtain ⟨tree, content, ordered, source⟩ := known' first hfirst
      obtain ⟨tree', content', ordered', source'⟩ := known' second hsecond
      exact different (congrArg Path.text (source.eq_of_location ordered ordered' source' equal))
    · intro text old new hold hnew
      obtain ⟨tree, saved, finds⟩ := (listed ⟨text⟩ old).mp hold
      exact apart tree saved ⟨text⟩ old new finds ((present ⟨text⟩ new).mp hnew)
  · refine Std.ExtTreeMap.distinct_keys_toList.imp fun different equal => different ?_
    rw [equal]
    exact Std.ReflCmp.compare_self

/-- Two sources, one of them in a directory of its own. -/
def shelf : World where
  files :=
    { entries := Std.ExtTreeMap.ofList
        [(["src"], .directory), (["src", "A.java"], .file [1]), (["src", "c.txt"], .file [3]),
          (["src", "lib"], .directory), (["src", "lib", "B.java"], .file [2])] compare
      host := { workingDirectory := [] } }

def shelfWatch : Watch := ⟨⟨"cache"⟩, ⟨⟨"src"⟩, ⟨"out"⟩⟩, "java"⟩

def shelfContents : List (String × Bytes) := [("src/A.java", [1]), ("src/lib/B.java", [2])]

def shelfDetector : Detector :=
  { shelfWatch.fresh with sourceDigests := some (digestsOf shelfContents) }

def savedShelf : World := stateAfter (shelfDetector.save shelfWatch.pair) shelf

/-- One source was edited, one has gone and one has come. -/
def editedShelf : World :=
  { savedShelf with files := ((savedShelf.files.setEntry ["src", "A.java"] (.file [4])).dropEntry
      ["src", "lib", "B.java"]).setEntry ["src", "lib", "D.java"] (.file [2]) }

def editedContents : List (String × Bytes) := [("src/A.java", [4]), ("src/lib/D.java", [2])]

private theorem shelf_holds :
    returns (shelfWatch.fresh.sourceStates shelfWatch.pair "java") shelf ∧
    stateAfter (shelfWatch.fresh.sourceStates shelfWatch.pair "java") shelf = shelf ∧
    returns (shelfDetector.save shelfWatch.pair) shelf ∧
    (savedShelf.files.read (shelfWatch.fileOf savedShelf.files)).toOption.isSome ∧
    shelf.files.WellFormed ∧ (shelfWatch.recorded shelf.files).isNone ∧
    (sourceContents shelf.files ⟨"src"⟩ "java").toOption = some shelfContents ∧
    (digestsOf shelfContents).toList.length < 2 ^ 32 ∧
    ∀ entry ∈ (digestsOf shelfContents).toList, (Text.Utf8.encode entry.1).length < 2 ^ 32 := by
  decide +kernel

private theorem shelf_history {later : World}
    (edited : shelfWatch.Undisturbed savedShelf.files later.files) :
    Relation.ReflTransGen shelfWatch.Follows ⟨shelf, shelfWatch.fresh, none, none⟩
      ⟨later, shelfWatch.fresh, none, some shelf.files⟩ := by
  obtain ⟨looks, stays, saves, reads, wellFormed, -, lists, few, short⟩ := shelf_holds
  have lists := eq_ok_of_toOption lists
  obtain ⟨⟨states, detector⟩, looks⟩ := exists_of_returns looks
  obtain ⟨-, contents, again, found⟩ := (Detector.ends_sourceStates ..).of_ok looks
  obtain ⟨-, rfl⟩ := Prod.mk.inj found
  obtain rfl : contents = shelfContents := Except.ok.inj (again.symm.trans lists)
  rw [stays] at looks
  obtain ⟨⟨⟩, saves⟩ := exists_of_returns saves
  obtain ⟨octets, reads⟩ := Option.isSome_iff_exists.mp reads
  refine .tail (.tail (.tail (.single (.looked wellFormed looks))
    (.saved rfl ?_ saves (eq_ok_of_toOption reads))) (.edited edited)) .began
  intro digests computed
  obtain rfl : digestsOf shelfContents = digests := Option.some.inj computed
  exact ⟨few, short⟩

private theorem finds_shelf (path : Path) (content : Bytes) :
    shelfWatch.Finds shelf.files path content ↔ (path.text, content) ∈ shelfContents :=
  (mem_sourceContents_iff (eq_ok_of_toOption shelf_holds.2.2.2.2.2.2.1)).symm

private theorem editedShelf_holds :
    editedShelf.files.WellFormed ∧
    (sourceContents editedShelf.files ⟨"src"⟩ "java").toOption = some editedContents ∧
    editedShelf.files.directory = savedShelf.files.directory ∧
    (editedShelf.files.read (shelfWatch.fileOf editedShelf.files)).toOption =
      (savedShelf.files.read (shelfWatch.fileOf savedShelf.files)).toOption ∧
    Digest.Xxh3.digest [1] ≠ Digest.Xxh3.digest [4] := by
  decide +kernel

/-- A run looks and saves, the sources are edited, and the next run tells what became of each. -/
theorem states_are_the_difference_edited :
    Ends (shelfWatch.fresh.sourceStates shelfWatch.pair "java") editedShelf
      (fun found _ => (⟨"src/A.java"⟩, .changed) ∈ found.1.toList ∧
        (⟨"src/lib/B.java"⟩, .removed) ∈ found.1.toList ∧
        (⟨"src/lib/D.java"⟩, .added) ∈ found.1.toList) fun _ _ => False := by
  obtain ⟨wellFormed, lists, home, kept, different⟩ := editedShelf_holds
  have now : ∀ path content, shelfWatch.Finds editedShelf.files path content ↔
      (path.text, content) ∈ editedContents :=
    fun _ _ => (mem_sourceContents_iff (eq_ok_of_toOption lists)).symm
  refine (states_are_the_difference (Option.isNone_iff_eq_none.mp shelf_holds.2.2.2.2.2.1)
    (shelf_history ⟨home, kept⟩) wellFormed ?_).imp ?_ ?_
  · rintro _ ⟨⟩ path old new hold hnew collide
    rw [finds_shelf] at hold
    rw [now] at hnew
    simp only [shelfContents, editedContents, List.mem_cons, Prod.mk.injEq, List.not_mem_nil,
      or_false] at hold hnew
    rcases hold with ⟨first, rfl⟩ | ⟨first, rfl⟩ <;> rcases hnew with ⟨second, rfl⟩ | ⟨second, rfl⟩
    · exact absurd collide different
    all_goals simp [first] at second
  · rintro found next ⟨-, -, tells, -⟩
    simp only [tells]
    refine ⟨.changed rfl ((finds_shelf _ [1]).mpr ?_) ((now _ [4]).mpr ?_) (by decide),
      .removed rfl ((finds_shelf _ [2]).mpr ?_) fun new here => ?_,
      .added ?_ ((now _ [2]).mpr ?_)⟩
    · decide
    · decide
    · decide
    · rw [now] at here
      simp [editedContents] at here
    · rintro _ ⟨⟩ old here
      rw [finds_shelf] at here
      simp [shelfContents] at here
    · decide
  · rintro _ _ ⟨-, -, fails⟩
    exact fails (exists_sourceContents_iff.mp ⟨_, eq_ok_of_toOption lists⟩)

/-- The sources have gone with their root. -/
def emptiedShelf : World :=
  { savedShelf with files := savedShelf.files.dropTree ["src"] }

private theorem emptiedShelf_holds :
    emptiedShelf.files.WellFormed ∧
    emptiedShelf.files.directory = savedShelf.files.directory ∧
    (emptiedShelf.files.read (shelfWatch.fileOf emptiedShelf.files)).toOption =
      (savedShelf.files.read (shelfWatch.fileOf savedShelf.files)).toOption ∧
    (emptiedShelf.files.placeOf ⟨"src"⟩).toOption = some ["src"] ∧
    emptiedShelf.files.entryAt? ["src"] = none ∧
    error? (shelfWatch.fresh.sourceStates shelfWatch.pair "java") emptiedShelf =
      some (.io (.walk ⟨"src"⟩ .notFound)) := by
  decide +kernel

/-- A source that went with the root was there at the last run that saved and is not there now, yet
the next run does not tell: it fails, since there is nothing to walk. -/
theorem states_are_not_told_without_root :
    (shelfWatch.recorded shelf.files).isNone ∧
    Relation.ReflTransGen shelfWatch.Follows ⟨shelf, shelfWatch.fresh, none, none⟩
      ⟨emptiedShelf, shelfWatch.fresh, none, some shelf.files⟩ ∧
    emptiedShelf.files.WellFormed ∧
    shelfWatch.Differs (some shelf.files) emptiedShelf.files ⟨"src/A.java"⟩ .removed ∧
    ¬∃ found next, shelfWatch.fresh.sourceStates shelfWatch.pair "java" emptiedShelf =
      .ok found next := by
  obtain ⟨wellFormed, home, kept, leads, gone, fails⟩ := emptiedShelf_holds
  refine ⟨shelf_holds.2.2.2.2.2.1, shelf_history ⟨home, kept⟩, wellFormed,
    .removed rfl ((finds_shelf _ [1]).mpr (by decide)) ?_, ?_⟩
  · rintro new ⟨-, place, names, leads', -, there⟩
    obtain rfl : ["src"] = place := Except.ok.inj ((eq_ok_of_toOption leads).symm.trans leads')
    have above : emptiedShelf.files.entryAt? ["src"] = some .directory ∨ names = [] := by
      rcases names.eq_nil_or_concat with rfl | ⟨_, _, rfl⟩
      · exact .inr rfl
      · rw [entryAt?_of_ne_nil _ (by simp)] at there
        exact .inl (wellFormed.entryAt?_of_prefix there (by simp))
    rcases above with above | rfl
    · rw [gone] at above
      cases above
    · rw [List.append_nil, gone] at there
      cases there
  · rintro ⟨found, next, told⟩
    exact nomatch (eq_error_of_error? fails).symm.trans told

end Watch

end Changes

end AbiBuild
