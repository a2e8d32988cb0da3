import AbiBuild.Proofs.Files.Calls

/-!
# A file that was replaced is there

This needs no plain path.  A path may go up and down again, but writing a file makes no directory
and takes none away, so the path leads to the same place afterwards.
-/

namespace AbiBuild.Files.FileSystem

open AbiBuild.Files.Path

structure KeepsDirectories (before after : FileSystem) : Prop where
  host : after.host = before.host
  stays : ∀ place, before.entryAt? place = some .directory →
    after.entryAt? place = some .directory

namespace KeepsDirectories

variable {before after : FileSystem}

theorem enter (keeps : KeepsDirectories before after) {place next : Place} {segment : String}
    (enters : before.enter place segment = .ok next) : after.enter place segment = .ok next := by
  unfold FileSystem.enter at enters ⊢
  cases found : before.entryAt? place with
  | none => simp [found] at enters
  | some entry =>
      cases entry with
      | file content => simp [found] at enters
      | directory => simpa [found, keeps.stays place found] using enters

private theorem foldlM_enter (keeps : KeepsDirectories before after) {segments : List String}
    {base place : Place} (leads : segments.foldlM before.enter base = .ok place) :
    segments.foldlM after.enter base = .ok place := by
  induction segments generalizing base with
  | nil => exact leads
  | cons segment segments ih =>
      rw [List.foldlM_cons, bind_eq_ok] at leads ⊢
      obtain ⟨next, enters, rest⟩ := leads
      exact ⟨next, keeps.enter enters, ih rest⟩

theorem placeOf (keeps : KeepsDirectories before after) {path : Path} {place : Place}
    (leads : before.placeOf path = .ok place) : after.placeOf path = .ok place := by
  obtain ⟨passable, leads⟩ := placeOf_eq_ok_iff.mp leads
  refine placeOf_eq_ok_iff.mpr ⟨passable, ?_⟩
  rw [baseOf, keeps.host]
  exact keeps.foldlM_enter leads

end KeepsDirectories

theorem keepsDirectories_of_elsewhere {before after : FileSystem} {place : Place}
    (free : before.entryAt? place ≠ some .directory)
    (host : after.host = before.host)
    (elsewhere : ∀ other, place ≠ other → after.entries[other]? = before.entries[other]?) :
    KeepsDirectories before after where
  host
  stays other isDirectory := by
    have different : place ≠ other := fun same => free (same ▸ isDirectory)
    cases other with
    | nil => rfl
    | cons name names =>
        rw [entryAt?_of_ne_nil _ (by simp)] at isDirectory ⊢
        rw [elsewhere _ different, isDirectory]

theorem keepsDirectories_setEntry {files : FileSystem} {place : Place} {content : Bytes}
    (free : files.entryAt? place ≠ some .directory) :
    KeepsDirectories files (files.setEntry place (.file content)) :=
  keepsDirectories_of_elsewhere free rfl fun other different => by
    rw [getElem?_setEntry, if_neg different]

theorem keepsDirectories_dropEntry {files : FileSystem} {place : Place}
    (free : files.entryAt? place ≠ some .directory) :
    KeepsDirectories files (files.dropEntry place) :=
  keepsDirectories_of_elsewhere free rfl fun other different => by
    rw [getElem?_dropEntry, if_neg different]

theorem read_setEntry_of_file {files : FileSystem} {place : Place} {old new : Bytes}
    (stood : files.entryAt? place = some (.file old)) (path : Path) :
    files.read path = .ok old ∧ (files.setEntry place (.file new)).read path = .ok new ∨
      (files.setEntry place (.file new)).read path = files.read path := by
  have below : place ≠ [] := by
    rintro rfl
    cases stood
  have entries : ∀ other, (files.setEntry place (.file new)).entryAt? other =
      if place = other then some (.file new) else files.entryAt? other := by
    intro other
    cases other with
    | nil => rw [if_neg below]; rfl
    | cons name names => rw [entryAt?_of_ne_nil _ (by simp), getElem?_setEntry]; rfl
  have enters : (files.setEntry place (.file new)).enter = files.enter := by
    funext other segment
    unfold FileSystem.enter
    by_cases same : place = other
    · rw [entries, if_pos same, ← same, stood]
    · rw [entries, if_neg same]
  have leads : (files.setEntry place (.file new)).placeOf path = files.placeOf path := by
    unfold FileSystem.placeOf
    rw [enters]
    rfl
  have lets : (files.setEntry place (.file new)).mayRead = files.mayRead := rfl
  simp only [read, leads, lets]
  cases files.placeOf path with
  | error fault => exact .inr rfl
  | ok other =>
      simp only [bind, Except.bind, entries]
      by_cases same : place = other
      · rw [if_pos same, ← same, stood]
        dsimp only
        cases files.mayRead place with
        | ok _ => exact .inl ⟨rfl, rfl⟩
        | error fault => exact .inr rfl
      · rw [if_neg same]
        exact .inr rfl

theorem entryOf_setEntry {files : FileSystem} {path : Path} {place : Place} {content : Bytes}
    (leads : files.placeOf path = .ok place) (free : files.entryAt? place ≠ some .directory) :
    (files.setEntry place (.file content)).entryOf path = .ok (.file content) := by
  have found : (files.setEntry place (.file content)).entryAt? place = some (.file content) := by
    rw [entryAt?_of_ne_nil _ (by rintro rfl; exact free rfl), getElem?_setEntry, if_pos rfl]
  exact entryOf_eq_ok_iff.mpr ⟨place, (keepsDirectories_setEntry free).placeOf leads, found⟩

theorem entryOf_placedFile {files next : FileSystem} {path : Path} {content : Bytes}
    (placed : files.placedFile path content = .ok next) :
    next.entryOf path = .ok (.file content) := by
  obtain ⟨place, leads, free, -, rfl⟩ := placedFile_eq_ok_iff.mp placed
  exact entryOf_setEntry leads free

theorem entryAt?_of_dropEntry {files : FileSystem} {place other : Place} {entry : Entry}
    (found : (files.dropEntry place).entryAt? other = some entry) :
    files.entryAt? other = some entry := by
  cases other with
  | nil => exact found
  | cons name names =>
      rw [entryAt?_of_ne_nil _ (by simp)] at found ⊢
      rw [getElem?_dropEntry] at found
      split at found
      · cases found
      · exact found

theorem entryOf_renamed {files next : FileSystem} {source target : Path} {content : Bytes}
    (stored : files.entryOf source = .ok (.file content))
    (renamed : files.renamed source target = .ok next) :
    next.entryOf target = .ok (.file content) := by
  obtain ⟨place, targetPlace, moved, leads, targetLeads, here, free, rfl⟩ :=
    renamed_eq_ok_iff.mp renamed
  obtain ⟨stands, leads', found⟩ := entryOf_eq_ok_iff.mp stored
  obtain rfl : place = stands := Except.ok.inj (leads.symm.trans leads')
  have same : moved = content := Entry.file.inj (Option.some.inj (here.symm.trans found))
  have keeps : KeepsDirectories files (files.dropEntry place) :=
    keepsDirectories_dropEntry (by simp [here])
  rw [same]
  exact entryOf_setEntry (keeps.placeOf targetLeads) fun directory =>
    free (entryAt?_of_dropEntry directory)

@[simp] theorem entryOf_refusals (files : FileSystem) (refusals : List (Option IoFault))
    (path : Path) : { files with refusals }.entryOf path = files.entryOf path := rfl

/-- A file that was replaced has the new content; whether it can be read is the host's affair. -/
theorem ends_replaceFile_entryOf (path : Path) (content : Bytes) (files : FileSystem) :
    Ends (replaceFile path content) files (fun _ next => next.entryOf path = .ok (.file content))
      (fun _ _ => True) := by
  rw [replaceFile, ends_bind]
  refine ends_attempt ?_ fun _ _ _ => trivial
  intro _ written placed
  refine ends_attempt ?_ fun _ _ _ => trivial
  intro refusals next renamed
  refine entryOf_renamed ?_ renamed
  rw [entryOf_refusals]
  exact entryOf_placedFile placed

/-! ## Removing for good -/

section Clears

variable {root path : Path} {before after : FileSystem}

theorem Clears.entryAt? (clears : Clears root before after) {place : Place} {entry : Entry}
    (found : after.entryAt? place = some entry) : before.entryAt? place = some entry := by
  cases place with
  | nil => exact found
  | cons name names => exact clears.kept _ _ found

theorem Clears.placeOf (clears : Clears root before after) {place : Place}
    (leads : after.placeOf path = .ok place) : before.placeOf path = .ok place :=
  KeepsDirectories.placeOf ⟨clears.host.symm, fun _ => clears.entryAt?⟩ leads

theorem Clears.read (clears : Clears root before after) {content : Bytes}
    (reads : after.read path = .ok content) : before.read path = .ok content := by
  obtain ⟨place, leads, found, readable⟩ := read_eq_ok_iff_entryAt?.mp reads
  rw [clears.host] at readable
  exact read_eq_ok_iff_entryAt?.mpr
    ⟨place, clears.placeOf leads, clears.entryAt? found, readable⟩

theorem Clears.isFile (clears : Clears root before after) (missing : before.isFile path = false) :
    after.isFile path = false := by
  rw [Bool.eq_false_iff, ne_eq, isFile_iff_entryAt?] at missing ⊢
  rintro ⟨place, content, leads, found⟩
  exact missing ⟨place, content, clears.placeOf leads, clears.entryAt? found⟩

end Clears

def RefusesLess (before after : FileSystem) : Prop := after.refusals ⊆ before.refusals

instance : Accumulates RefusesLess where
  refl _ := List.Subset.refl _
  trans first second := List.Subset.trans second first

theorem moves_attempt_refusesLess {change : FileSystem → Except IoFault FileSystem}
    (keeps : ∀ files next, change files = .ok next → next.refusals = files.refusals) :
    Moves RefusesLess (attempt change) := by
  intro files
  have less : files.refusals.drop 1 ⊆ files.refusals := List.drop_subset 1 files.refusals
  unfold Ends attempt
  dsimp only
  cases files.refusals.head?.join with
  | some fault => exact less
  | none =>
      cases changed : change { files with refusals := files.refusals.drop 1 } with
      | ok next => simpa [changed, RefusesLess, keeps _ _ changed] using less
      | error fault => simpa [changed, RefusesLess] using less

theorem refusals_withoutFile {files next : FileSystem} {path : Path}
    (removed : files.withoutFile path = .ok next) : next.refusals = files.refusals := by
  obtain ⟨_, _, -, -, rfl⟩ := withoutFile_eq_ok_iff.mp removed
  rfl

theorem moves_removeFile_refusesLess (path : Path) :
    Moves RefusesLess (ignoreMissing (removeFile path)) :=
  moves_ignoreMissing (moves_attempt_refusesLess fun _ _ => refusals_withoutFile)

/-- Where the host does not say of what is there that it is missing, a file is gone once it was
removed. -/
theorem ends_removeFile_gone {files : FileSystem} {path : Path} (wellFormed : files.WellFormed)
    (plain : path.Plain) (honest : some .notFound ∉ files.refusals) :
    Ends (ignoreMissing (removeFile path)) files (fun _ next => next.isFile path = false)
      (fun _ _ => True) := by
  refine ends_ignoreMissing (ends_attempt ?_ ?_)
  · intro refusals next removed
    have wellFormed := (touches_withoutFile plain removed).wellFormed
      ((touches_refusals [] files refusals).wellFormed wellFormed)
    obtain ⟨-, rfl⟩ := withoutFile_eq_ok plain removed
    rw [Bool.eq_false_iff, ne_eq, isFile_iff]
    rintro ⟨content, found⟩
    rw [entryOf_eq_ok wellFormed plain, placeFor_dropEntry, getElem?_dropEntry, if_pos rfl] at found
    cases found.2
  · rintro fault refusals (refused | fails)
    · rw [if_neg]
      · trivial
      · rintro rfl
        exact honest refused
    · split
      next missing =>
        subst missing
        rw [Bool.eq_false_iff, ne_eq, isFile_iff_entryAt?]
        rintro ⟨place, content, leads, found⟩
        rw [withoutFile_eq_ok_iff.mpr ⟨place, content, leads, found, rfl⟩] at fails
        cases fails
      next => trivial

end AbiBuild.Files.FileSystem
