import AbiBuild.Proofs.Files.Locations
import AbiBuild.Proofs.Files.Replace

/-!
# What is read at a path that is left alone

Files may be written and removed elsewhere, however the paths to them are spelled.  As long as their
components lead elsewhere, the same is read at the path as before.
-/

namespace AbiBuild.Files.FileSystem

open AbiBuild.Files.Path

structure KeepsReading (path : Path) (before after : FileSystem) : Prop where
  directories : KeepsDirectories before after
  stays : ∀ place, before.placeOf path = .ok place → after.entryAt? place = before.entryAt? place

instance (path : Path) : Accumulates (KeepsReading path) where
  refl _ := ⟨⟨rfl, fun _ => id⟩, fun _ _ => rfl⟩
  trans first second :=
    ⟨⟨second.directories.host.trans first.directories.host,
        fun place isDirectory =>
          second.directories.stays place (first.directories.stays place isDirectory)⟩,
      fun place leads =>
        (second.stays place (first.directories.placeOf leads)).trans (first.stays place leads)⟩

variable {path other source target : Path} {files before after next : FileSystem} {place : Place}
  {content : Bytes}

theorem KeepsReading.read (keeps : KeepsReading path before after)
    (reads : before.read path = .ok content) : after.read path = .ok content := by
  obtain ⟨place, leads, here, readable⟩ := read_eq_ok_iff_entryAt?.mp reads
  rw [← keeps.directories.host] at readable
  exact read_eq_ok_iff_entryAt?.mpr
    ⟨place, keeps.directories.placeOf leads, (keeps.stays place leads).trans here, readable⟩

theorem KeepsReading.entryOf (keeps : KeepsReading path before after) {entry : Entry}
    (found : before.entryOf path = .ok entry) : after.entryOf path = .ok entry := by
  obtain ⟨place, leads, here⟩ := entryOf_eq_ok_iff.mp found
  exact entryOf_eq_ok_iff.mpr ⟨place, keeps.directories.placeOf leads,
    (keeps.stays place leads).trans here⟩

theorem keepsReading_refusals (path : Path) (files : FileSystem)
    (refusals : List (Option IoFault)) : KeepsReading path files { files with refusals } :=
  ⟨⟨rfl, fun _ => id⟩, fun _ _ => rfl⟩

theorem keepsReading_dropEntry (free : files.entryAt? place ≠ some .directory)
    (apart : ∀ there, files.placeOf path = .ok there → place ≠ there) :
    KeepsReading path files (files.dropEntry place) := by
  refine ⟨keepsDirectories_dropEntry free, fun there leads => ?_⟩
  cases there with
  | nil => rfl
  | cons name names =>
      rw [entryAt?_of_ne_nil _ (by simp), entryAt?_of_ne_nil _ (by simp), getElem?_dropEntry,
        if_neg (apart _ leads)]

theorem keepsReading_setEntry (free : files.entryAt? place ≠ some .directory)
    (apart : ∀ there, files.placeOf path = .ok there → place ≠ there) :
    KeepsReading path files (files.setEntry place (.file content)) := by
  refine ⟨keepsDirectories_setEntry free, fun there leads => ?_⟩
  cases there with
  | nil => rfl
  | cons name names =>
      rw [entryAt?_of_ne_nil _ (by simp), entryAt?_of_ne_nil _ (by simp), getElem?_setEntry,
        if_neg (apart _ leads)]

theorem ne_of_placeFrom_ne
    (apart : other.placeFrom files.host.workingDirectory ≠ path.placeFrom files.host.workingDirectory)
    (leads : files.placeOf other = .ok place) {there : Place}
    (leadsThere : files.placeOf path = .ok there) : place ≠ there := by
  rw [eq_placeFrom_of_placeOf leads, eq_placeFrom_of_placeOf leadsThere]
  exact apart

theorem keepsReading_withoutFile
    (apart : other.placeFrom files.host.workingDirectory ≠ path.placeFrom files.host.workingDirectory)
    (removed : files.withoutFile other = .ok next) : KeepsReading path files next := by
  obtain ⟨place, content, leads, found, rfl⟩ := withoutFile_eq_ok_iff.mp removed
  exact keepsReading_dropEntry (by simp [found]) fun _ => ne_of_placeFrom_ne apart leads

theorem keepsReading_placedFile
    (apart : other.placeFrom files.host.workingDirectory ≠ path.placeFrom files.host.workingDirectory)
    (placed : files.placedFile other content = .ok next) : KeepsReading path files next := by
  obtain ⟨place, leads, free, -, rfl⟩ := placedFile_eq_ok_iff.mp placed
  exact keepsReading_setEntry free fun _ => ne_of_placeFrom_ne apart leads

theorem keepsReading_renamed
    (apart : source.placeFrom files.host.workingDirectory ≠ path.placeFrom files.host.workingDirectory)
    (apartTarget : target.placeFrom files.host.workingDirectory ≠ path.placeFrom files.host.workingDirectory)
    (renamed : files.renamed source target = .ok next) : KeepsReading path files next := by
  obtain ⟨place, targetPlace, moved, leads, targetLeads, here, free, rfl⟩ :=
    renamed_eq_ok_iff.mp renamed
  have dropped : KeepsReading path files (files.dropEntry place) :=
    keepsReading_dropEntry (by simp [here]) fun _ => ne_of_placeFrom_ne apart leads
  refine Accumulates.trans dropped (keepsReading_setEntry
    (fun directory => free (entryAt?_of_dropEntry directory)) fun there leadsThere => ?_)
  exact @ne_of_placeFrom_ne path target (files.dropEntry place) _ apartTarget
    (dropped.directories.placeOf targetLeads) _ leadsThere

/-- Replacing a file leaves another one alone whose name is neither that of the file nor that of its
temporary copy. -/
theorem keepsReading_replaceFile (apart : ∀ home : Place, other.placeFrom home ≠ path.placeFrom home)
    (apartTemporary : ∀ home : Place,
      (other.withExtension "tmp").placeFrom home ≠ path.placeFrom home) (content : Bytes) :
    Moves (KeepsReading path) (replaceFile other content) := by
  rw [replaceFile]
  refine Moves.bind (moves_attempt (keepsReading_refusals path) fun _ _ placed => ?_) fun _ =>
    moves_attempt (keepsReading_refusals path) fun _ _ renamed => ?_
  · exact keepsReading_placedFile (apartTemporary _) placed
  · exact keepsReading_renamed (apartTemporary _) (apart _) renamed

/-! ## The working directory -/

def SameHome (before after : FileSystem) : Prop := after.host = before.host

instance : Accumulates SameHome where
  refl _ := rfl
  trans first second := Eq.trans second first

theorem SameHome.directory (same : SameHome before after) : after.directory = before.directory := by
  rw [FileSystem.directory, FileSystem.directory, same]

theorem sameHome_placedFile (placed : files.placedFile path content = .ok next) :
    SameHome files next := by
  obtain ⟨_, -, -, -, rfl⟩ := placedFile_eq_ok_iff.mp placed
  rfl

theorem sameHome_madeDirectory (made : files.madeDirectory path = .ok next) :
    SameHome files next := by
  obtain ⟨_, -, -, rfl⟩ := madeDirectory_eq_ok_iff.mp made
  rfl

theorem moves_makeDirectory_sameHome (path : Path) : Moves SameHome (makeDirectory path) :=
  moves_attempt (fun _ _ => rfl) fun _ _ => sameHome_madeDirectory

theorem moves_makeDirectories_sameHome (path : Path) : Moves SameHome (makeDirectories path) := by
  have makeMissing : ∀ path, Moves SameHome (makeMissing path) := by
    intro path
    refine Moves.bind (moves_inspect _) fun there => ?_
    split
    · exact Moves.pure _
    · exact moves_makeDirectory_sameHome path
  have within : ∀ count path, Moves SameHome (makeDirectoriesWithin count path) := by
    intro count
    induction count with
    | zero =>
        intro path
        rw [makeDirectoriesWithin]
        split
        · exact Moves.pure _
        · exact makeMissing path
    | succ count ih =>
        intro path
        rw [makeDirectoriesWithin]
        split
        · exact Moves.pure _
        refine Moves.bind (moves_inspect _) fun there => ?_
        split
        · exact Moves.pure _
        refine Moves.bind (moves_inspect _) fun made => ?_
        dsimp only
        split
        next => exact Moves.bind (ih _) fun _ => makeMissing path
        next => exact makeMissing path
  exact within _ path

theorem moves_replaceFile_sameHome (path : Path) (content : Bytes) :
    Moves SameHome (replaceFile path content) := by
  rw [replaceFile]
  refine Moves.bind (moves_attempt (fun _ _ => rfl) fun _ _ => sameHome_placedFile) fun _ =>
    moves_attempt (fun _ _ => rfl) fun _ _ renamed => ?_
  obtain ⟨_, _, _, _, _, _, _, rfl⟩ := renamed_eq_ok_iff.mp renamed
  rfl

end AbiBuild.Files.FileSystem
