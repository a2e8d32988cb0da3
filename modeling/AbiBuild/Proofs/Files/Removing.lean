import AbiBuild.Proofs.Files.Locations
import AbiBuild.Proofs.Files.Replace

/-!
# What is read where a tree was removed

However the path of a directory is spelled, what is read under a name below it is read at a place
inside.  So once the directory was emptied nothing is read there, and a call that was refused leaves
everything to be read as before.
-/

namespace AbiBuild.Files.FileSystem

open AbiBuild.Files.Path

variable {files next : FileSystem} {base path : Path} {name : String} {place : Place}
  {content : Bytes}

/-! ## Reading below a directory -/

theorem getElem?_of_read_join (isName : IsName name)
    (reads : files.read (base.join name) = .ok content) :
    files.entries[base.placeFrom files.host.workingDirectory ++ [name]]? = some (.file content) := by
  obtain ⟨place, leads, here, -⟩ := read_eq_ok_iff_entryAt?.mp reads
  have same : place = base.placeFrom files.host.workingDirectory ++ [name] :=
    (eq_placeFrom_of_placeOf leads).trans (placeFrom_of_location (location_join base isName) _)
  rwa [same, entryAt?_of_ne_nil files (by simp)] at here

private theorem foldlM_enter_blank {segments : List String}
    (blank : ∀ segment ∈ segments, isBlankSegment segment)
    (isDirectory : files.entryAt? place = some .directory) :
    segments.foldlM files.enter place = .ok place := by
  induction segments with
  | nil => rfl
  | cons segment segments ih =>
      rw [List.forall_mem_cons] at blank
      have stays : files.enter place segment = .ok place := by
        have nothing : (segment = "" || segment = ".") = true := blank.1
        rw [enter, isDirectory]
        exact if_pos nothing
      rw [List.foldlM_cons, stays]
      exact ih blank.2

private theorem isDirectory_of_enter {above : Place} (enters : files.enter above name = .ok place) :
    files.entryAt? above = some .directory := by
  rw [enter] at enters
  cases found : files.entryAt? above with
  | none =>
      rw [found] at enters
      cases enters
  | some entry =>
      cases entry with
      | directory => rfl
      | file content =>
          rw [found] at enters
          cases enters

theorem Passable.of_join (passable : Passable (base.join name)) (nonempty : base.text ≠ "")
    (isName : IsName name) : Passable base := by
  have longer : ∃ more, (base.join name).text = base.text ++ more := by
    rw [join, if_neg (head?_ne_slash isName.whole)]
    split
    · exact ⟨name, rfl⟩
    · exact ⟨"/" ++ name, by rw [String.append_assoc]⟩
  obtain ⟨more, text⟩ := longer
  obtain ⟨noZero, -, short⟩ := passable
  rw [text] at noZero short
  rw [String.utf8ByteSize_append] at short
  refine ⟨?_, nonempty, by omega⟩
  simp only [String.toList_append, List.contains_append, Bool.or_eq_false_iff] at noZero
  exact noZero.1

theorem exists_of_placeOf_join (nonempty : base.text ≠ "") (isName : IsName name)
    (leads : files.placeOf (base.join name) = .ok place) :
    ∃ above, files.placeOf base = .ok above ∧ files.entryAt? above = some .directory := by
  obtain ⟨passable, leads⟩ := placeOf_eq_ok_iff.mp leads
  -- Both ways begin alike, and then the one enters a name and the other stays.
  obtain ⟨way, rest, blank, steps, stepsJoined⟩ := exists_steps_join nonempty isName
  rw [stepsJoined, baseOf_join files nonempty isName, List.foldlM_append, bind_eq_ok] at leads
  obtain ⟨above, there, enters⟩ := leads
  rw [List.foldlM_cons, bind_eq_ok] at enters
  obtain ⟨_, enters, -⟩ := enters
  have isDirectory := isDirectory_of_enter enters
  refine ⟨above, placeOf_eq_ok_iff.mpr ⟨passable.of_join nonempty isName, ?_⟩, isDirectory⟩
  rw [steps, List.foldlM_append, there]
  exact foldlM_enter_blank blank isDirectory

/-! ## Removing -/

theorem emptied_ne_notFound (nonempty : path.text ≠ "") (isName : IsName name)
    (reads : files.read (path.join name) = .ok content) : files.emptied path ≠ .error .notFound := by
  obtain ⟨place, leads, -⟩ := read_eq_ok_iff_entryAt?.mp reads
  obtain ⟨above, leadsAbove, isDirectory⟩ := exists_of_placeOf_join nonempty isName leads
  rw [emptied_eq_ok_iff.mpr ⟨above, leadsAbove, isDirectory, rfl⟩]
  exact nofun

def Unread (path : Path) (name : String) (files : FileSystem) : Prop :=
  ∀ content, files.read (path.join name) ≠ .ok content

theorem unread_of_getElem? (isName : IsName name)
    (gone : files.entries[path.placeFrom files.host.workingDirectory ++ [name]]? = none) :
    Unread path name files := by
  intro content reads
  rw [getElem?_of_read_join isName reads] at gone
  cases gone

/-- Removing a tree leaves what is read below it as it was, or takes it away.  Unless the host says of
what is there that it is missing, it is gone when the call succeeds. -/
theorem ends_removeTree_read (nonempty : path.text ≠ "") (isName : IsName name)
    (files : FileSystem) :
    Ends (ignoreMissing (removeTree path)) files
      (fun _ next => next.host = files.host ∧
        (some .notFound ∉ files.refusals → Unread path name next))
      (fun _ next => next.host = files.host ∧
        (next.read (path.join name) = files.read (path.join name) ∨ Unread path name next)) := by
  refine ends_ignoreMissing ?_
  rw [removeTree, ends_bind]
  refine ends_attempt ?_ ?_
  · intro refusals middle emptied
    obtain ⟨place, leads, -, rfl⟩ := emptied_eq_ok_iff.mp emptied
    have same : place = path.placeFrom files.host.workingDirectory := eq_placeFrom_of_placeOf leads
    -- What is dropped next does not matter, the file is gone already.
    have gone : ∀ next : FileSystem, next.host = files.host →
        (∀ (there : Place) entry, next.entries[there]? = some entry →
          (files.dropBelow place).entries[there]? = some entry) → Unread path name next := by
      intro next home fewer
      refine unread_of_getElem? isName ?_
      rw [home, ← same]
      cases found : next.entries[place ++ [name]]? with
      | none => rfl
      | some entry =>
          have kept := fewer _ _ found
          rw [getElem?_dropBelow, if_pos ⟨List.prefix_append _ _, by simp⟩] at kept
          cases kept
    refine ends_attempt ?_ ?_
    · intro refusals' next removed
      obtain ⟨other, -, -, -, rfl⟩ := withoutDirectory_eq_ok_iff.mp removed
      refine ⟨rfl, fun _ => gone _ rfl fun there entry found => ?_⟩
      rw [getElem?_dropTree] at found
      split at found
      next => cases found
      next => exact found
    · intro fault refusals' _
      have left : Unread path name { files.dropBelow place with refusals := refusals' } :=
        gone _ rfl fun _ _ => id
      split
      · exact ⟨rfl, fun _ => left⟩
      · exact ⟨rfl, .inr left⟩
  · rintro fault refusals (refused | fails)
    · split
      next missing => exact ⟨rfl, fun honest => absurd (missing ▸ refused) honest⟩
      next => exact ⟨rfl, .inl rfl⟩
    · split
      next missing =>
        subst missing
        exact ⟨rfl, fun _ content reads => emptied_ne_notFound nonempty isName reads fails⟩
      next => exact ⟨rfl, .inl rfl⟩

end AbiBuild.Files.FileSystem
