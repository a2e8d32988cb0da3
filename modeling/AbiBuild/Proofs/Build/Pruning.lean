import AbiBuild.Proofs.Build.Outputs
import AbiBuild.Proofs.Files.Pruning

/-!
# Removing the outputs of types

Removing the outputs of a type removes what is listed as one, at any output root and whatever the
type is called.  When the outputs of several types are removed, what is an output of two of them is
listed for the first one only, and still the same files go in every order.
-/

namespace AbiBuild.Outputs

open Files FileSystem

variable {files before after : FileSystem} {outputRoot path : Path} {className extension : String}
  {place : Place}

/-! ## Listed outputs -/

/-- The unit of the type if it is a file, and what stands beside it under the name of a nested type's
unit. -/
inductive ExistingOutput (files : FileSystem) (outputRoot : Path) (className extension : String) :
    Path → Prop
  | unit (isFile : files.isFile (unitPath outputRoot className extension)) :
      ExistingOutput files outputRoot className extension (unitPath outputRoot className extension)
  | nested {directory : Path} {names : List String} {name : String}
      (beside : (unitPath outputRoot className extension).parent? = some directory)
      (lists : files.names directory = .ok names) (member : name ∈ names)
      (isNested : isNestedUnit (Text.lastPiece '/' className) extension name) :
      ExistingOutput files outputRoot className extension (directory.join name)

theorem mem_existing_iff : path ∈ existing files outputRoot className extension ↔
    ExistingOutput files outputRoot className extension path := by
  rw [mem_existing_iff_unit_or_nested, mem_nestedUnits_iff]
  constructor
  · rintro (⟨isFile, rfl⟩ | ⟨directory, names, name, beside, lists, member, isNested, rfl⟩)
    · exact .unit isFile
    · exact .nested beside lists member isNested
  · rintro (isFile | ⟨beside, lists, member, isNested⟩)
    · exact .inl ⟨isFile, rfl⟩
    · exact .inr ⟨_, _, _, beside, lists, member, isNested, rfl⟩

def OutputAt (files : FileSystem) (outputRoot : Path) (className extension : String)
    (place : Place) : Prop :=
  ∃ path, ExistingOutput files outputRoot className extension path ∧ files.placeOf path = .ok place

def Removable (files : FileSystem) (outputRoot : Path) (className extension : String) : Prop :=
  ∀ path, ExistingOutput files outputRoot className extension path → files.isFile path

/-- The path of every existing output of the type leads to a place, so the host takes none of them for
too long. -/
def Reachable (files : FileSystem) (outputRoot : Path) (className extension : String) : Prop :=
  ∀ path, ExistingOutput files outputRoot className extension path →
    ∃ place, files.placeOf path = .ok place

theorem exists_above {directory : Path} {names : List String} {name : String}
    (wellFormed : files.WellFormed) (lists : files.names directory = .ok names)
    (member : name ∈ names) : ∃ above entry, files.placeOf directory = .ok above ∧
      files.entryAt? above = some .directory ∧ files.host.unreadable[above]? = none ∧ IsName name ∧
        files.entries[above ++ [name]]? = some entry := by
  obtain ⟨above, leads, isDirectory, readable, -⟩ := names_eq_ok_iff.mp lists
  obtain ⟨entry, found⟩ := (mem_names_iff lists leads).mp member
  exact ⟨above, entry, leads, isDirectory, readable, mem_names wellFormed lists name member, found⟩

theorem ExistingOutput.isListed (wellFormed : files.WellFormed)
    (exists' : ExistingOutput files outputRoot className extension path) :
    files.IsListed path := by
  cases exists' with
  | unit isFile =>
      obtain ⟨place, content, leads, found⟩ := (isFile_iff_getElem? wellFormed).mp isFile
      exact .inl ⟨place, _, leads, found⟩
  | nested beside lists member isNested =>
      obtain ⟨above, entry, leads, isDirectory, -, isName, found⟩ :=
        exists_above wellFormed lists member
      rcases placeOf_join leads isDirectory isName with there | ⟨fault, different, refused⟩
      · exact .inl ⟨_, entry, there, found⟩
      · exact .inr ⟨fault, different, refused⟩

section Prunes

variable {places : Place → Prop} (prunes : Prunes places before after)
include prunes

theorem ExistingOutput.earlier
    (exists' : ExistingOutput after outputRoot className extension path) :
    ExistingOutput before outputRoot className extension path := by
  cases exists' with
  | unit isFile => exact .unit (prunes.isFile isFile)
  | @nested directory names name beside lists member isNested =>
      obtain ⟨above, leads, isDirectory, readable, -⟩ := names_eq_ok_iff.mp lists
      obtain ⟨entry, found⟩ := (mem_names_iff lists leads).mp member
      have leads := prunes.placeOf_iff.mp leads
      rw [prunes.host] at readable
      have lists := names_eq_ok_iff.mpr ⟨above, leads, prunes.entryAt? isDirectory, readable, rfl⟩
      exact .nested beside lists ((mem_names_iff lists leads).mpr ⟨entry, prunes.kept _ _ found⟩)
        isNested

theorem ExistingOutput.later (wellFormed : before.WellFormed)
    (exists' : ExistingOutput before outputRoot className extension path)
    (leads : before.placeOf path = .ok place) (left : after.entries[place]? ≠ none) :
    ExistingOutput after outputRoot className extension path := by
  obtain ⟨entry, left⟩ := Option.ne_none_iff_exists'.mp left
  cases exists' with
  | unit isFile =>
      obtain ⟨place', content, leads', found⟩ := (isFile_iff_getElem? wellFormed).mp isFile
      obtain rfl := Except.ok.inj (leads.symm.trans leads')
      rw [prunes.kept _ _ left, Option.some.injEq] at found
      subst found
      exact .unit ((isFile_iff_getElem? (prunes.wellFormed wellFormed)).mpr
        ⟨place, content, prunes.placeOf_iff.mpr leads, left⟩)
  | nested beside lists member isNested =>
      obtain ⟨above, -, leads', isDirectory, readable, isName, -⟩ :=
        exists_above wellFormed lists member
      rcases placeOf_join leads' isDirectory isName with there | ⟨fault, -, refused⟩
      · obtain rfl := Except.ok.inj (leads.symm.trans there)
        have leads' := prunes.placeOf_iff.mpr leads'
        rw [← prunes.host] at readable
        have lists := names_eq_ok_iff.mpr
          ⟨above, leads', prunes.keepsDirectories.stays above isDirectory, readable, rfl⟩
        exact .nested beside lists ((mem_names_iff lists leads').mpr ⟨entry, left⟩) isNested
      · rw [refused] at leads
        cases leads

theorem ExistingOutput.isListed_later (wellFormed : before.WellFormed)
    (exists' : ExistingOutput before outputRoot className extension path)
    (left : ∀ place, before.placeOf path = .ok place → after.entries[place]? ≠ none) :
    after.IsListed path := by
  rcases exists'.isListed wellFormed with ⟨place, -, leads, -⟩ | ⟨fault, different, refused⟩
  · obtain ⟨entry, left⟩ := Option.ne_none_iff_exists'.mp (left place leads)
    exact .inl ⟨place, entry, prunes.placeOf_iff.mpr leads, left⟩
  · cases exists' with
    | unit isFile =>
        obtain ⟨place, content, leads, -⟩ := isFile_iff_entryAt?.mp isFile
        rw [refused] at leads
        cases leads
    | nested beside lists member isNested =>
        obtain ⟨above, -, leads, isDirectory, -, isName, -⟩ :=
          exists_above wellFormed lists member
        have isDirectory := prunes.keepsDirectories.stays above isDirectory
        rcases placeOf_join (prunes.placeOf_iff.mpr leads) isDirectory isName with
          there | ⟨other, different, refused'⟩
        · rw [prunes.placeOf_iff, refused] at there
          cases there
        · exact .inr ⟨other, different, refused'⟩

theorem OutputAt.earlier (isOutput : OutputAt after outputRoot className extension place) :
    OutputAt before outputRoot className extension place := by
  obtain ⟨path, exists', leads⟩ := isOutput
  exact ⟨path, exists'.earlier prunes, prunes.placeOf_iff.mp leads⟩

theorem OutputAt.later (wellFormed : before.WellFormed)
    (isOutput : OutputAt before outputRoot className extension place)
    (left : after.entries[place]? ≠ none) :
    OutputAt after outputRoot className extension place := by
  obtain ⟨path, exists', leads⟩ := isOutput
  exact ⟨path, exists'.later prunes wellFormed leads left, prunes.placeOf_iff.mpr leads⟩

theorem Removable.later (wellFormed : before.WellFormed)
    (removable : Removable before outputRoot className extension) :
    Removable after outputRoot className extension := by
  intro path exists'
  have wellFormedAfter := prunes.wellFormed wellFormed
  have isFile := removable path (exists'.earlier prunes)
  obtain ⟨place, content, leads, found⟩ := (isFile_iff_getElem? wellFormed).mp isFile
  have leads' := prunes.placeOf_iff.mpr leads
  rcases exists'.isListed wellFormedAfter with ⟨place', entry, there, left⟩ | ⟨fault, -, refused⟩
  · obtain rfl := Except.ok.inj (leads'.symm.trans there)
    rw [prunes.kept _ _ left, Option.some.injEq] at found
    subst found
    exact (isFile_iff_getElem? wellFormedAfter).mpr ⟨place, content, leads', left⟩
  · rw [refused] at leads'
    cases leads'

theorem Reachable.removable (reachable : Reachable before outputRoot className extension)
    (wellFormed : before.WellFormed) (honest : some .notFound ∉ before.refusals)
    (listed : ∀ place, OutputAt before outputRoot className extension place → places place) :
    Removable before outputRoot className extension := by
  intro path exists'
  obtain ⟨place, leads⟩ := reachable path exists'
  rcases exists'.isListed wellFormed with ⟨place', entry, there, found⟩ | ⟨fault, -, refused⟩
  · obtain rfl := Except.ok.inj (leads.symm.trans there)
    have gone := prunes.all honest place (listed place ⟨path, exists', leads⟩)
    obtain ⟨-, isFile⟩ := prunes.only place entry found gone
    cases entry with
    | directory => exact absurd rfl isFile
    | file content => exact (isFile_iff_getElem? wellFormed).mpr ⟨place, content, leads, found⟩
  · rw [refused] at leads
    cases leads

end Prunes

/-! ## Removing all that is listed -/

def LeadApart (files : FileSystem) (first second : Path) : Prop :=
  ∀ place, files.placeOf first = .ok place → files.placeOf second ≠ .ok place

theorem LeadApart.symm {first second : Path} (apart : LeadApart files first second) :
    LeadApart files second first :=
  fun place there here => apart place here there

theorem leadApart_unit (wellFormed : files.WellFormed) {directory : Path} {names : List String}
    {name : String} (isFile : files.isFile (unitPath outputRoot className extension))
    (lists : files.names directory = .ok names) (member : name ∈ names)
    (isNested : isNestedUnit (Text.lastPiece '/' className) extension name) :
    LeadApart files (unitPath outputRoot className extension) (directory.join name) := by
  intro place leads there
  have isName := mem_names wellFormed lists name member
  rw [isNestedUnit, Bool.and_eq_true, List.isPrefixOf_iff_prefix, List.isSuffixOf_iff_suffix]
    at isNested
  obtain ⟨⟨inner, starts⟩, ends⟩ := isNested
  have wholeExtension : '/' ∉ extension.toList := by
    intro slash
    exact isName.whole (ends.subset (by simp [slash]))
  have wholeName : '/' ∉ (Text.lastPiece '/' className).toList := by
    intro slash
    refine isName.whole ?_
    rw [← starts]
    simp [slash]
  have unitName : '/' ∉ (Text.lastPiece '/' className ++ "." ++ extension).toList := by
    simp [wholeName, wholeExtension]
  rw [unitPath_eq_join] at isFile leads
  have last : (steps ((unitDirectory outputRoot className).join
      (Text.lastPiece '/' className ++ "." ++ extension))).getLast? =
        some (Text.lastPiece '/' className ++ "." ++ extension) :=
    Path.getLast?_steps_join_of_whole _ (by simp) unitName
  have unit := getLast?_of_placeOf (isName_of_isFile wellFormed last unitName isFile) last leads
  have nested := getLast?_of_placeOf isName (Path.getLast?_steps_join directory isName) there
  have same := Option.some.inj (unit.symm.trans nested)
  rw [← same] at starts
  simp at starts

theorem pairwise_nestedUnits (wellFormed : files.WellFormed) (unit : Path)
    (simpleName extension : String) :
    (nestedUnits files unit simpleName extension).Pairwise (LeadApart files) := by
  rw [nestedUnits]
  split
  next => exact .nil
  next directory _ =>
    split
    next => exact .nil
    next names lists =>
      rw [List.pairwise_map]
      refine ((nodup_names lists).filter _).imp_of_mem ?_
      intro first second hfirst hsecond different place leads there
      have isName := mem_names wellFormed lists _ (List.mem_filter.mp hfirst).1
      have isName' := mem_names wellFormed lists _ (List.mem_filter.mp hsecond).1
      have last := getLast?_of_placeOf isName (Path.getLast?_steps_join directory isName) leads
      have last' := getLast?_of_placeOf isName' (Path.getLast?_steps_join directory isName') there
      exact different (Option.some.inj (last.symm.trans last'))

theorem pairwise_existing (wellFormed : files.WellFormed) (outputRoot : Path)
    (className extension : String) :
    (existing files outputRoot className extension).Pairwise (LeadApart files) := by
  rw [existing, (List.mergeSort_perm _ _).pairwise_iff fun apart => apart.symm, List.pairwise_append]
  refine ⟨by split <;> simp, pairwise_nestedUnits wellFormed _ _ _, ?_⟩
  intro unit own output nested
  split at own
  next isFile =>
    obtain rfl := List.mem_singleton.mp own
    obtain ⟨directory, names, name, -, lists, member, isNested, rfl⟩ := mem_nestedUnits_iff.mp nested
    exact leadApart_unit wellFormed isFile lists member isNested
  next => cases own

/-- Once some listed outputs are removed, the next one can be removed as well, if it is a file and the
host does not stand in the way. -/
theorem ends_removeFile_next (wellFormed : files.WellFormed) {state : FileSystem}
    {done rest : List Path}
    (split : existing files outputRoot className extension = done ++ path :: rest)
    (prunes : Prunes (fun place => ∃ removed ∈ done, files.placeOf removed = .ok place) files state) :
    Ends (ignoreMissing (removeFile path)) state
      (fun _ next => Prunes (fun place => ∃ removed ∈ done ++ [path],
        files.placeOf removed = .ok place) files next)
      (fun _ _ => files.Willing → ¬Removable files outputRoot className extension) := by
  have exists' : ExistingOutput files outputRoot className extension path := by
    rw [← mem_existing_iff, split]
    simp
  -- The paths before this one led elsewhere, so what it leads to has not gone with them.
  have left : ∀ place entry, files.placeOf path = .ok place →
      files.entries[place]? = some entry → state.entries[place]? = some entry := by
    intro place entry leads found
    cases still : state.entries[place]? with
    | some other => rw [← found, prunes.kept _ _ still]
    | none =>
        obtain ⟨⟨removed, member, there⟩, -⟩ := prunes.only _ _ found still
        have apart := pairwise_existing wellFormed outputRoot className extension
        rw [split, List.pairwise_append] at apart
        exact absurd leads (apart.2.2 removed member path (.head _) place there)
  have isListed : state.IsListed path := by
    refine exists'.isListed_later prunes wellFormed fun place leads => ?_
    rcases exists'.isListed wellFormed with ⟨place', entry, there, found⟩ | ⟨fault, -, refused⟩
    · obtain rfl := Except.ok.inj (leads.symm.trans there)
      rw [left place entry leads found]
      nofun
    · rw [refused] at leads
      cases leads
  refine (ends_removeFile_prunes fun _ => isListed).imp ?_ ?_
  · intro _ next removes
    refine prunes.trans removes ?_ ?_
    · rintro place (⟨removed, member, there⟩ | here)
      · exact ⟨removed, List.mem_append_left _ member, there⟩
      · exact ⟨path, by simp, prunes.placeOf_iff.mp here⟩
    · rintro place ⟨removed, member, there⟩
      rcases List.mem_append.mp member with earlier | last
      · exact .inl ⟨removed, earlier, there⟩
      · obtain rfl := List.mem_singleton.mp last
        exact .inr (.inl (prunes.placeOf_iff.mpr there))
  · intro _ _ fails willing removable
    obtain ⟨place, content, leads, found⟩ :=
      (isFile_iff_getElem? wellFormed).mp (removable path exists')
    exact fails (prunes.willing willing) ((isFile_iff_getElem? (prunes.wellFormed wellFormed)).mpr
      ⟨place, content, prunes.placeOf_iff.mpr leads, left place _ leads found⟩)

/-- Removing the outputs of a type removes exactly those, or the host stands in the way, or one of them
is not a file. -/
theorem ends_delete_prunes (wellFormed : files.WellFormed) (outputRoot : Path)
    (className extension : String) :
    Ends (delete outputRoot className extension) files
      (fun _ next => Prunes (OutputAt files outputRoot className extension) files next)
      (fun _ _ => files.Willing → ¬Removable files outputRoot className extension) := by
  rw [delete, ends_bind]
  change Ends ((existing files outputRoot className extension).forM _) files _ _
  let holds (rest : List Path) (next : FileSystem) : Prop := ∃ done,
    existing files outputRoot className extension = done ++ rest ∧
      Prunes (fun place => ∃ removed ∈ done, files.placeOf removed = .ok place) files next
  have loop : Ends ((existing files outputRoot className extension).forM fun path =>
      ignoreMissing (removeFile path)) files (fun _ next => holds [] next)
      (fun _ _ => files.Willing → ¬Removable files outputRoot className extension) := by
    refine Ends.forM holds ?_ _ files ⟨[], rfl, .refl (by simp) files⟩
    rintro path rest state ⟨done, split, prunes⟩
    refine (ends_removeFile_next wellFormed split prunes).imp ?_ fun _ _ fails => fails
    exact fun _ next removed => ⟨done ++ [path], by simp [split], removed⟩
  refine loop.imp ?_ fun _ _ fails => fails
  rintro _ next ⟨done, all, prunes⟩
  rw [List.append_nil] at all
  have same : OutputAt files outputRoot className extension =
      fun place => ∃ removed ∈ done, files.placeOf removed = .ok place := by
    funext place
    simp only [OutputAt, ← mem_existing_iff, all]
  rwa [same]

end AbiBuild.Outputs
