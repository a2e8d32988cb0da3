import AbiBuild.Proofs.Files.Locations
import AbiBuild.Proofs.Files.Replace

/-!
# Removing files one by one

What is left when some files were removed does not depend on the order of the removals.  A listing
tells which entries a directory has, and this survives the removal of other files, however the paths
to the directory and to the files are spelled.
-/

namespace AbiBuild.Files.FileSystem

open AbiBuild.Files.Path

variable {files before middle after : FileSystem} {path directory : Path} {place above : Place}
  {name : String}

/-! ## Where joined paths lead -/

theorem eq_of_foldlM_enter_blank {segments : List String}
    (blank : ∀ segment ∈ segments, isBlankSegment segment)
    (leads : segments.foldlM files.enter above = .ok place) : place = above := by
  induction segments with
  | nil => exact (Except.ok.inj leads).symm
  | cons segment segments ih =>
      rw [List.forall_mem_cons] at blank
      rw [List.foldlM_cons, bind_eq_ok] at leads
      obtain ⟨next, enters, rest⟩ := leads
      have stays : next = above := by
        have empty : segment = "" ∨ segment = "." := by simpa [isBlankSegment] using blank.1
        rw [enter] at enters
        split at enters
        next => cases enters
        next => cases enters
        next =>
          rw [if_pos (by simpa using empty)] at enters
          exact (Except.ok.inj enters).symm
      rw [stays] at rest
      exact ih blank.2 rest

/-- A name joined to a directory leads to the entry of that name, unless the host refuses the path
as such. -/
theorem placeOf_join (leads : files.placeOf directory = .ok above)
    (isDirectory : files.entryAt? above = some .directory) (isName : IsName name) :
    files.placeOf (directory.join name) = .ok (above ++ [name]) ∨
      ∃ fault, fault ≠ .notFound ∧ files.placeOf (directory.join name) = .error fault := by
  obtain ⟨⟨-, nonempty, -⟩, leads⟩ := placeOf_eq_ok_iff.mp leads
  have joined : (directory.join name).text ≠ "" := by
    intro empty
    have single : directory.join name = ⟨""⟩ := congrArg Path.mk empty
    have last := getLast?_steps_join directory isName
    rw [single] at last
    exact isName.nonempty (Option.some.inj last).symm
  obtain ⟨way, rest, blank, steps, stepsJoined⟩ := exists_steps_join nonempty isName
  have reaches : way.foldlM files.enter (files.baseOf directory) = .ok above := by
    rw [steps, List.foldlM_append, bind_eq_ok] at leads
    obtain ⟨reached, front, stays⟩ := leads
    rw [eq_of_foldlM_enter_blank blank stays, front]
  rw [placeOf, if_neg joined, stepsJoined, ← baseOf, baseOf_join files nonempty isName]
  split
  next => exact .inr ⟨_, by decide, rfl⟩
  next =>
    split
    next => exact .inr ⟨_, by decide, rfl⟩
    next =>
      rw [List.foldlM_append, reaches, ok_bind, List.foldlM_cons]
      by_cases short : name.utf8ByteSize ≤ longestName
      · rw [(enter_eq_ok isName).mpr ⟨isDirectory, short, rfl⟩]
        exact .inl rfl
      · refine .inr ⟨.nameTooLong, by decide, ?_⟩
        rw [enter, isDirectory]
        simp [isName.nonempty, isName.not_current, isName.not_parent, Nat.lt_of_not_le short]

theorem isFile_iff_getElem? (wellFormed : files.WellFormed) : files.isFile path ↔
    ∃ (place : Place) (content : Bytes), files.placeOf path = .ok place ∧
      files.entries[place]? = some (.file content) := by
  rw [isFile_iff_entryAt?]
  refine exists_congr fun place => exists_congr fun content => and_congr_right fun _ => ?_
  cases place with
  | nil => simp [FileSystem.entryAt?, wellFormed.rooted]
  | cons name names => rw [entryAt?_of_ne_nil _ (by simp)]

theorem isName_of_isFile (wellFormed : files.WellFormed) {segment : String}
    (last : (steps path).getLast? = some segment) (whole : '/' ∉ segment.toList)
    (isFile : files.isFile path) : IsName segment := by
  obtain ⟨place, content, leads, found⟩ := isFile_iff_entryAt?.mp isFile
  obtain ⟨above, enters⟩ := exists_enter_of_placeOf last leads
  rw [enter] at enters
  split at enters
  next => cases enters
  next => cases enters
  next isDirectory =>
    by_cases blank : segment = "" ∨ segment = "."
    · rw [if_pos (by simpa using blank)] at enters
      rw [← Except.ok.inj enters, isDirectory] at found
      cases found
    · rw [not_or] at blank
      refine ⟨blank.1, blank.2, ?_, whole⟩
      rintro rfl
      have up : above.dropLast = place := by simpa using enters
      -- What is above a directory is a directory.
      rcases List.eq_nil_or_concat above with rfl | ⟨outer, name, rfl⟩
      · rw [← up] at found
        cases found
      · rw [List.concat_eq_append] at isDirectory up
        rw [List.dropLast_concat] at up
        rw [entryAt?_of_ne_nil _ (by simp)] at isDirectory
        rw [← up, wellFormed.parents _ _ _ isDirectory] at found
        cases found

/-! ## Trees with fewer files -/

/-- The host refuses nothing that is still to come. -/
def Willing (files : FileSystem) : Prop :=
  ∀ refusal ∈ files.refusals, refusal = none

theorem Willing.honest {files : FileSystem} (willing : files.Willing) :
    some .notFound ∉ files.refusals := by
  intro refused
  cases willing _ refused

/-- From one tree to another only files at these places have gone.  Unless the host calls missing what
is there, all of them have, each with one call. -/
structure Prunes (places : Place → Prop) (before after : FileSystem) : Prop where
  host : after.host = before.host
  kept : ∀ (place : Place) (entry : Entry), after.entries[place]? = some entry →
    before.entries[place]? = some entry
  only : ∀ (place : Place) (entry : Entry), before.entries[place]? = some entry →
    after.entries[place]? = none → places place ∧ entry ≠ .directory
  all : some .notFound ∉ before.refusals → ∀ place : Place, places place →
    after.entries[place]? = none
  calls : some .notFound ∉ before.refusals → ∃ count,
    before.entries.size = after.entries.size + count ∧
      after.refusals = before.refusals.drop count

namespace Prunes

variable {places more both : Place → Prop}

theorem refl (none : ∀ place, ¬places place) (files : FileSystem) : Prunes places files files where
  host := rfl
  kept _ _ := id
  only place entry found missing := by
    rw [found] at missing
    cases missing
  all _ place listed := absurd listed (none place)
  calls _ := ⟨0, rfl, rfl⟩

theorem honest (prunes : Prunes places before after) (honest : some .notFound ∉ before.refusals) :
    some .notFound ∉ after.refusals := by
  obtain ⟨count, -, rest⟩ := prunes.calls honest
  rw [rest]
  exact fun refused => honest (List.mem_of_mem_drop refused)

theorem willing (prunes : Prunes places before after) (willing : before.Willing) :
    after.Willing := by
  obtain ⟨count, -, rest⟩ := prunes.calls willing.honest
  intro refusal listed
  rw [rest] at listed
  exact willing refusal (List.mem_of_mem_drop listed)

/-- What is left after one removal after the other. Places where nothing is left in between need not
be listed again. -/
theorem trans (first : Prunes places before middle) (second : Prunes more middle after)
    (included : ∀ place, places place ∨ more place → both place)
    (covered : ∀ place, both place →
      places place ∨ more place ∨ middle.entries[place]? = none) : Prunes both before after where
  host := second.host.trans first.host
  kept place entry found := first.kept place entry (second.kept place entry found)
  only place entry found missing := by
    cases left : middle.entries[place]? with
    | none =>
        obtain ⟨listed, isFile⟩ := first.only place entry found left
        exact ⟨included place (.inl listed), isFile⟩
    | some other =>
        obtain rfl := Option.some.inj (found.symm.trans (first.kept place other left))
        obtain ⟨listed, isFile⟩ := second.only place entry left missing
        exact ⟨included place (.inr listed), isFile⟩
  all honest place listed := by
    have stays : middle.entries[place]? = none → after.entries[place]? = none := by
      intro missing
      cases left : after.entries[place]? with
      | none => rfl
      | some entry =>
          rw [second.kept place entry left] at missing
          cases missing
    rcases covered place listed with here | there | missing
    · exact stays (first.all honest place here)
    · exact second.all (first.honest honest) place there
    · exact stays missing
  calls honest := by
    obtain ⟨count, size, rest⟩ := first.calls honest
    obtain ⟨further, size', rest'⟩ := second.calls (first.honest honest)
    exact ⟨count + further, by omega, by rw [rest', rest, List.drop_drop]⟩

theorem eq (first : Prunes places files before) (second : Prunes places files after)
    (honest : some .notFound ∉ files.refusals) : before = after := by
  have entries : before.entries = after.entries := by
    refine Std.ExtTreeMap.ext_getElem? fun place => ?_
    by_cases listed : places place
    · rw [first.all honest place listed, second.all honest place listed]
    · cases found : before.entries[place]? with
      | none =>
          cases other : after.entries[place]? with
          | none => rfl
          | some entry =>
              exact absurd (first.only place entry (second.kept place entry other) found).1 listed
      | some entry =>
          cases other : after.entries[place]? with
          | none => exact absurd (second.only place entry (first.kept place entry found) other).1 listed
          | some entry' =>
              rw [← first.kept place entry found, second.kept place entry' other]
  obtain ⟨count, size, rest⟩ := first.calls honest
  obtain ⟨count', size', rest'⟩ := second.calls honest
  have same : count = count' := by
    rw [entries] at size
    omega
  have refusals : before.refusals = after.refusals := by rw [rest, rest', same]
  have host := first.host.trans second.host.symm
  cases before
  cases after
  simp only [mk.injEq]
  exact ⟨entries, host, refusals⟩

section Paths

variable (prunes : Prunes places before after)
include prunes

theorem entryAt? {place : Place} {entry : Entry} (found : after.entryAt? place = some entry) :
    before.entryAt? place = some entry := by
  cases place with
  | nil => exact found
  | cons name names => exact prunes.kept _ _ found

theorem keepsDirectories : KeepsDirectories before after where
  host := prunes.host
  stays place isDirectory := by
    cases place with
    | nil => rfl
    | cons name names =>
        rw [entryAt?_of_ne_nil _ (by simp)] at isDirectory ⊢
        cases left : after.entries[name :: names]? with
        | none => exact absurd rfl (prunes.only _ _ isDirectory left).2
        | some entry => rw [← prunes.kept _ _ left, isDirectory]

theorem placeOf_iff : after.placeOf path = .ok place ↔ before.placeOf path = .ok place :=
  ⟨fun leads => KeepsDirectories.placeOf ⟨prunes.host.symm, fun _ => prunes.entryAt?⟩ leads,
    prunes.keepsDirectories.placeOf⟩

theorem wellFormed (wellFormed : before.WellFormed) : after.WellFormed where
  names place entry found := wellFormed.names place entry (prunes.kept place entry found)
  rooted := by
    cases found : after.entries[([] : Place)]? with
    | none => rfl
    | some entry =>
        rw [← wellFormed.rooted, prunes.kept _ entry found]
  parents place name entry found :=
    prunes.keepsDirectories.stays place (wellFormed.parents place name entry (prunes.kept _ _ found))

theorem isFile (isFile : after.isFile path) : before.isFile path := by
  rw [isFile_iff_entryAt?] at isFile ⊢
  obtain ⟨place, content, leads, found⟩ := isFile
  exact ⟨place, content, prunes.placeOf_iff.mp leads, prunes.entryAt? found⟩

end Paths

end Prunes

/-! ## Removing one file -/

theorem exists_of_withoutFile {next : FileSystem} (removed : files.withoutFile path = .ok next) :
    ∃ place content, files.placeOf path = .ok place ∧
      files.entries[place]? = some (.file content) ∧ next = files.dropEntry place := by
  obtain ⟨place, content, leads, found, rfl⟩ := withoutFile_eq_ok_iff.mp removed
  rw [entryAt?_of_ne_nil _ (by rintro rfl; cases found)] at found
  exact ⟨place, content, leads, found, rfl⟩

theorem withoutFile_refusals (files : FileSystem) (refusals : List (Option IoFault)) (path : Path) :
    { files with refusals }.withoutFile path =
      (files.withoutFile path).map fun next => { next with refusals } := by
  have leads : { files with refusals }.placeOf path = files.placeOf path := rfl
  rw [withoutFile, withoutFile, leads]
  cases files.placeOf path with
  | error fault => rfl
  | ok place =>
      have here : { files with refusals }.entryAt? place = files.entryAt? place := rfl
      rw [ok_bind, ok_bind, here]
      cases files.entryAt? place with
      | none => rfl
      | some entry => cases entry <;> rfl

theorem prunes_dropEntry {content : Bytes} (found : files.entries[place]? = some (.file content))
    (refusals : List (Option IoFault)) (rest : refusals = files.refusals.drop 1) :
    Prunes (· = place) files ({ files with refusals }.dropEntry place) where
  host := rfl
  kept other entry left := by
    rw [getElem?_dropEntry] at left
    split at left
    next => cases left
    next => exact left
  only other entry there missing := by
    rw [getElem?_dropEntry] at missing
    split at missing
    next same =>
      subst same
      rw [found] at there
      rw [← Option.some.inj there]
      exact ⟨rfl, nofun⟩
    next =>
      rw [there] at missing
      cases missing
  all _ other same := by rw [getElem?_dropEntry, if_pos same.symm]
  calls _ := by
    have member : place ∈ files.entries := by
      rw [Std.ExtTreeMap.mem_iff_isSome_getElem?, found]
      rfl
    have positive : files.entries.size ≠ 0 := by
      rw [ne_eq, ← Std.ExtTreeMap.eq_empty_iff_size_eq_zero]
      intro empty
      rw [empty] at member
      exact Std.ExtTreeMap.not_mem_empty member
    refine ⟨1, ?_, rest⟩
    have smaller : (files.entries.erase place).size = files.entries.size - 1 := by
      rw [Std.ExtTreeMap.size_erase, if_pos (Std.ExtTreeMap.mem_iff_contains.mp member)]
    change files.entries.size = (files.entries.erase place).size + 1
    omega

def IsListed (files : FileSystem) (path : Path) : Prop :=
  (∃ place entry, files.placeOf path = .ok place ∧ files.entries[place]? = some entry) ∨
    ∃ fault, fault ≠ .notFound ∧ files.placeOf path = .error fault

theorem IsListed.withoutFile_ne {files : FileSystem} (isListed : files.IsListed path) :
    files.withoutFile path ≠ .error .notFound := by
  intro fails
  rw [withoutFile] at fails
  rcases isListed with ⟨place, entry, leads, found⟩ | ⟨fault, different, refused⟩
  · have there : files.entryAt? place ≠ none := by
      cases place with
      | nil => exact Option.some_ne_none _
      | cons name names =>
          rw [entryAt?_of_ne_nil _ (by simp), found]
          exact Option.some_ne_none _
    rw [leads, ok_bind] at fails
    cases other : files.entryAt? place with
    | none => exact there other
    | some entry => cases entry <;> simp [other, pure, Except.pure, throw, throwThe, MonadExceptOf.throw] at fails
  · rw [refused, error_bind] at fails
    exact different (Except.error.inj fails)

/-- Removing a file with leave to miss it removes it, or the host stands in the way, or the path does
not lead to a file. -/
theorem ends_removeFile_prunes (isListed : some .notFound ∉ files.refusals → files.IsListed path) :
    Ends (ignoreMissing (removeFile path)) files
      (fun _ next => Prunes (fun place => files.placeOf path = .ok place) files next)
      (fun _ _ => files.Willing → ¬files.isFile path) := by
  have removes := withoutFile_refusals files (files.refusals.drop 1) path
  refine ends_ignoreMissing (ends_attempt_drop ?_ ?_)
  · intro next removed
    rw [removes] at removed
    cases result : files.withoutFile path with
    | error fault =>
        rw [result] at removed
        cases removed
    | ok middle =>
        rw [result] at removed
        obtain rfl := Except.ok.inj removed
        obtain ⟨place, content, leads, found, rfl⟩ := exists_of_withoutFile result
        have same : (fun other => files.placeOf path = .ok other) = (· = place) := by
          funext other
          rw [leads, eq_iff_iff, Except.ok.injEq, eq_comm]
        rw [same]
        exact prunes_dropEntry found _ rfl
  · intro fault fails
    have fails : some fault ∈ files.refusals ∨ files.withoutFile path = .error fault := by
      refine fails.imp_right fun fails => ?_
      rw [removes] at fails
      cases result : files.withoutFile path with
      | error other =>
          rw [result] at fails
          exact fails
      | ok middle =>
          rw [result] at fails
          cases fails
    split
    next missing =>
      subst missing
      have dishonest : ¬some .notFound ∉ files.refusals :=
        fun honest => fails.elim honest (isListed honest).withoutFile_ne
      refine ⟨rfl, fun _ _ => id, fun place entry found missing => ?_,
        fun honest => absurd honest dishonest, fun honest => absurd honest dishonest⟩
      rw [found] at missing
      cases missing
    next =>
      intro willing isFile
      obtain ⟨place, content, leads, found⟩ := isFile_iff_entryAt?.mp isFile
      rcases fails with refused | fails
      · cases willing _ refused
      · rw [withoutFile_eq_ok_iff.mpr ⟨place, content, leads, found, rfl⟩] at fails
        cases fails

/-! ## Listings -/

theorem names_eq_ok_iff {names : List String} : files.names directory = .ok names ↔ ∃ place,
    files.placeOf directory = .ok place ∧ files.entryAt? place = some .directory ∧
      files.host.unreadable[place]? = none ∧
      names = (files.below place).filterMap fun (there, _) =>
        match there with
        | [name] => some name
        | _ => none := by
  rw [FileSystem.names, bind_eq_ok]
  refine exists_congr fun place => and_congr_right fun _ => ?_
  cases files.entryAt? place with
  | none => simp [throw, throwThe, MonadExceptOf.throw]
  | some entry =>
      cases entry with
      | file content => simp [throw, throwThe, MonadExceptOf.throw]
      | directory =>
          rw [bind_eq_ok]
          simp only [mayRead_eq_ok, true_and, exists_and_left, exists_const]
          refine and_congr_right fun _ => ?_
          exact ⟨fun same => (Except.ok.inj same).symm, fun same => by rw [same]; rfl⟩

theorem nodup_names {names : List String} (lists : files.names directory = .ok names) :
    names.Nodup := by
  obtain ⟨above, -, -, -, rfl⟩ := names_eq_ok_iff.mp lists
  rw [List.Nodup, List.pairwise_filterMap]
  refine (pairwise_below files above).imp ?_
  rintro ⟨first, _⟩ ⟨second, _⟩ different name single name' single' rfl
  dsimp only at single single' different
  split at single
  next =>
    split at single'
    next =>
      obtain rfl := Option.some.inj single
      obtain rfl := Option.some.inj single'
      exact different rfl
    next => cases single'
  next => cases single

theorem mem_names_iff {names : List String} (lists : files.names directory = .ok names)
    (leads : files.placeOf directory = .ok above) :
    name ∈ names ↔ ∃ entry, files.entries[above ++ [name]]? = some entry := by
  obtain ⟨place, leads', -, -, rfl⟩ := names_eq_ok_iff.mp lists
  obtain rfl := Except.ok.inj (leads.symm.trans leads')
  rw [List.mem_filterMap]
  constructor
  · rintro ⟨⟨there, entry⟩, inside, single⟩
    dsimp only at single
    split at single
    next other =>
      obtain rfl := Option.some.inj single
      exact ⟨entry, ((mem_below _ _ _).mp inside).2⟩
    next => cases single
  · rintro ⟨entry, found⟩
    exact ⟨([name], entry), (mem_below _ _ _).mpr ⟨by simp, found⟩, rfl⟩

end AbiBuild.Files.FileSystem
