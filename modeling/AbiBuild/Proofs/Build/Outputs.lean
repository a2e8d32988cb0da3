import AbiBuild.Build.Outputs
import AbiBuild.Proofs.Files.Replace

/-!
# Outputs lie below the output root

The unit of a type, and with it every output that is removed with the type, lies below the output
root, provided that the parts of the type's name are names.
-/

namespace AbiBuild

open Files FileSystem

/-- No part of the name is empty or a step to another directory. -/
def IsTypeName (name : String) : Prop :=
  ∀ segment ∈ Text.splitOn '/' name, IsName segment

instance (name : String) : Decidable (IsTypeName name) :=
  decidable_of_iff (∀ segment ∈ Text.splitOn '/' name,
    segment ≠ "" ∧ segment ≠ "." ∧ segment ≠ ".." ∧ '/' ∉ segment.toList) <| by
    refine forall_congr' fun segment => forall_congr' fun _ => ?_
    exact ⟨fun ⟨nonempty, current, parent, whole⟩ => ⟨nonempty, current, parent, whole⟩,
      fun isName => ⟨isName.nonempty, isName.not_current, isName.not_parent, isName.whole⟩⟩

theorem Files.IsName.withExtension {name extension : String} (isName : IsName name)
    (whole : '/' ∉ extension.toList) : IsName (name ++ "." ++ extension) := by
  have text : (name ++ "." ++ extension).toList = name.toList ++ '.' :: extension.toList := by
    simp
  have nonempty : name.toList ≠ [] := by simpa using isName.nonempty
  refine ⟨?_, ?_, ?_, ?_⟩
  · intro empty
    rw [empty] at text
    simp at text
  · intro current
    rw [current] at text
    cases letters : name.toList with
    | nil => exact nonempty letters
    | cons letter letters' => simp [letters] at text
  · intro parent
    rw [parent] at text
    cases letters : name.toList with
    | nil => exact nonempty letters
    | cons letter others =>
        rw [letters] at text
        cases others with
        | cons second others => simp at text
        | nil =>
            refine isName.not_current (String.toList_injective ?_)
            rw [letters]
            simp only [List.cons_append, List.nil_append, List.cons.injEq, String.reduceToList] at text
            rw [← text.1]
            rfl
  · rw [text, List.mem_append, List.mem_cons, not_or, not_or]
    exact ⟨isName.whole, by decide, whole⟩

namespace Outputs

variable {files : FileSystem} {outputRoot : Path} {className other extension : String}

def unitDirectory (outputRoot : Path) (className : String) : Path :=
  (Text.splitOn '/' className).dropLast.foldl Path.join outputRoot

theorem splitOn_eq_append (className : String) : Text.splitOn '/' className =
    (Text.splitOn '/' className).dropLast ++ [Text.lastPiece '/' className] := by
  have nonempty : Text.splitOn '/' className ≠ [] := by
    simp [Text.splitOn, Text.pieces_ne_nil]
  rw [Text.lastPiece, List.getLast?_eq_some_getLast nonempty]
  exact (List.dropLast_append_getLast nonempty).symm

theorem unitPath_eq_join (outputRoot : Path) (className extension : String) :
    unitPath outputRoot className extension =
      (unitDirectory outputRoot className).join (Text.lastPiece '/' className ++ "." ++ extension) := by
  rw [unitPath, unitDirectory]
  congr 3
  rw [splitOn_eq_append]
  simp

section TypeName

variable (isTypeName : IsTypeName className)
include isTypeName

theorem isName_front : ∀ segment ∈ (Text.splitOn '/' className).dropLast, IsName segment :=
  fun segment member => isTypeName segment (List.dropLast_subset _ member)

theorem isName_lastPiece : IsName (Text.lastPiece '/' className) := by
  refine isTypeName _ ?_
  rw [splitOn_eq_append]
  simp

theorem below_unitDirectory (plain : outputRoot.Plain) :
    Below outputRoot (unitDirectory outputRoot className) :=
  (Below.refl plain).foldl_join (isName_front isTypeName)

end TypeName

theorem exists_unitPath_eq_join (plain : outputRoot.Plain) (isTypeName : IsTypeName className)
    (whole : '/' ∉ extension.toList) : ∃ directory name, Below outputRoot directory ∧
      IsName name ∧ unitPath outputRoot className extension = directory.join name :=
  ⟨_, _, below_unitDirectory isTypeName plain, (isName_lastPiece isTypeName).withExtension whole,
    unitPath_eq_join outputRoot className extension⟩

theorem below_unitPath (plain : outputRoot.Plain) (isTypeName : IsTypeName className)
    (whole : '/' ∉ extension.toList) :
    Below outputRoot (unitPath outputRoot className extension) := by
  obtain ⟨directory, name, below, isName, joined⟩ := exists_unitPath_eq_join plain isTypeName whole
  rw [joined]
  exact below.join isName

theorem splitOn_injective (same : Text.splitOn '/' className = Text.splitOn '/' other) :
    className = other := by
  have paths : Files.Path.mk className = Files.Path.mk other := Path.segments_injective same
  exact congrArg Path.text paths

theorem steps_unitPath (plain : outputRoot.Plain) (isTypeName : IsTypeName className)
    (whole : '/' ∉ extension.toList) : steps (unitPath outputRoot className extension) =
      steps outputRoot ++ (Text.splitOn '/' className).dropLast ++
        [Text.lastPiece '/' className ++ "." ++ extension] := by
  have unit := (isName_lastPiece isTypeName).withExtension whole
  rw [unitPath_eq_join, (below_unitDirectory isTypeName plain).plain.steps_join unit.whole,
    unitDirectory, plain.steps_foldl_join (isName_front isTypeName)]

theorem eq_of_steps_unitPath (plain : outputRoot.Plain) (isTypeName : IsTypeName className)
    (isTypeNameOther : IsTypeName other) (whole : '/' ∉ extension.toList)
    (same : steps (unitPath outputRoot className extension) =
      steps (unitPath outputRoot other extension)) : className = other := by
  rw [steps_unitPath plain isTypeName whole, steps_unitPath plain isTypeNameOther whole,
    List.append_assoc, List.append_assoc, List.append_cancel_left_eq] at same
  obtain ⟨front, last⟩ := List.append_inj' same rfl
  have texts := congrArg String.toList (List.singleton_inj.mp last)
  simp only [String.toList_append, List.append_cancel_right_eq] at texts
  refine splitOn_injective ?_
  rw [splitOn_eq_append className, splitOn_eq_append other, front, String.toList_inj.mp texts]

/-- The unit of a type, or a file beside it that is named like the unit of a nested type. -/
def IsOutput (outputRoot : Path) (className extension : String) (path : Path) : Prop :=
  path = unitPath outputRoot className extension ∨ ∃ nested,
    path = (unitDirectory outputRoot className).join nested ∧ IsName nested ∧
      isNestedUnit (Text.lastPiece '/' className) extension nested

theorem mem_nestedUnits_iff {unit path : Path} {simpleName : String} :
    path ∈ nestedUnits files unit simpleName extension ↔ ∃ directory names name,
      unit.parent? = some directory ∧ files.names directory = .ok names ∧ name ∈ names ∧
        isNestedUnit simpleName extension name ∧ directory.join name = path := by
  unfold nestedUnits
  cases unit.parent? with
  | none => simp
  | some directory => cases listed : files.names directory <;> simp [listed, and_assoc]

theorem mem_existing_iff_unit_or_nested {path : Path} :
    path ∈ existing files outputRoot className extension ↔
      (files.isFile (unitPath outputRoot className extension) ∧
        path = unitPath outputRoot className extension) ∨
      path ∈ nestedUnits files (unitPath outputRoot className extension)
        (Text.lastPiece '/' className) extension := by
  rw [existing, List.mem_mergeSort, List.mem_append]
  refine or_congr_left ?_
  split <;> simp [*]

theorem isOutput_of_mem_existing (wellFormed : files.WellFormed) (plain : outputRoot.Plain)
    (isTypeName : IsTypeName className) (whole : '/' ∉ extension.toList) {path : Path}
    (member : path ∈ existing files outputRoot className extension) :
    IsOutput outputRoot className extension path := by
  have below := below_unitDirectory isTypeName plain
  have unit := (isName_lastPiece isTypeName).withExtension whole
  rcases mem_existing_iff_unit_or_nested.mp member with own | nested
  · exact .inl own.2
  · obtain ⟨directory, names, name, beside, listed, there, isNested, rfl⟩ :=
      mem_nestedUnits_iff.mp nested
    rw [unitPath_eq_join, below.plain.parent?_join unit] at beside
    obtain rfl := Option.some.inj beside
    exact .inr ⟨name, rfl, mem_names wellFormed listed name there, isNested⟩

theorem mem_existing (wellFormed : files.WellFormed) (plain : outputRoot.Plain)
    (legible : files.LegibleBelow outputRoot) (isTypeName : IsTypeName className)
    (whole : '/' ∉ extension.toList) {path : Path} (isOutput : IsOutput outputRoot className extension path)
    (isFile : files.isFile path) :
    path ∈ existing files outputRoot className extension := by
  have below := below_unitDirectory isTypeName plain
  have unit := (isName_lastPiece isTypeName).withExtension whole
  refine mem_existing_iff_unit_or_nested.mpr ?_
  rcases isOutput with rfl | ⟨nested, rfl, isName, isNested⟩
  · exact .inl ⟨isFile, rfl⟩
  · obtain ⟨content, found⟩ := isFile_iff.mp isFile
    obtain ⟨names, listed, member⟩ := exists_mem_names wellFormed below.plain (legible _ below) isName found
    have beside := below.plain.parent?_join unit
    rw [← unitPath_eq_join] at beside
    exact .inr (mem_nestedUnits_iff.mpr ⟨_, names, nested, beside, listed, member, isNested, rfl⟩)

theorem IsOutput.below (plain : outputRoot.Plain) (isTypeName : IsTypeName className)
    (whole : '/' ∉ extension.toList) {path : Path}
    (isOutput : IsOutput outputRoot className extension path) : Below outputRoot path := by
  rcases isOutput with rfl | ⟨nested, rfl, isName, -⟩
  · exact below_unitPath plain isTypeName whole
  · exact (below_unitDirectory isTypeName plain).join isName

theorem IsOutput.exists_steps (plain : outputRoot.Plain) (isTypeName : IsTypeName className)
    (whole : '/' ∉ extension.toList) {path : Path}
    (isOutput : IsOutput outputRoot className extension path) : ∃ (fileName : String) (rest : List Char),
      steps path = steps outputRoot ++ (Text.splitOn '/' className).dropLast ++ [fileName] ∧
      fileName.toList = (Text.lastPiece '/' className).toList ++ rest ∧
      (rest = '.' :: extension.toList ∨ ∃ inner, rest = '$' :: inner) := by
  rcases isOutput with rfl | ⟨nested, rfl, isName, isNested⟩
  · exact ⟨_, _, steps_unitPath plain isTypeName whole, by simp, .inl rfl⟩
  · rw [isNestedUnit, Bool.and_eq_true, List.isPrefixOf_iff_prefix] at isNested
    obtain ⟨inner, text⟩ := isNested.1
    refine ⟨nested, '$' :: inner, ?_, by rw [← text]; simp, .inr ⟨inner, rfl⟩⟩
    rw [(below_unitDirectory isTypeName plain).plain.steps_join isName.whole, unitDirectory,
      plain.steps_foldl_join (isName_front isTypeName)]

theorem below_of_mem_existing (wellFormed : files.WellFormed) (plain : outputRoot.Plain)
    (isTypeName : IsTypeName className) (whole : '/' ∉ extension.toList) :
    ∀ path ∈ existing files outputRoot className extension, Below outputRoot path :=
  fun _ member =>
    (isOutput_of_mem_existing wellFormed plain isTypeName whole member).below plain isTypeName whole

/-! ## Outputs and state -/

/-- An extension that no file of state has. -/
structure OwnExtension (extension : String) : Prop where
  nonempty : extension ≠ ""
  whole : '/' ∉ extension.toList
  single : '.' ∉ extension.toList
  different : extension ≠ "bin"

namespace OwnExtension

variable (own : OwnExtension extension)
include own

theorem isName (stem : String) (whole : '/' ∉ stem.toList) :
    IsName (stem ++ "." ++ extension) := by
  have text : (stem ++ "." ++ extension).toList = stem.toList ++ '.' :: extension.toList := by
    simp
  have nonempty : extension.toList ≠ [] := by simpa using own.nonempty
  obtain ⟨letter, letters, spelled⟩ := List.exists_cons_of_ne_nil nonempty
  refine ⟨?_, ?_, ?_, ?_⟩
  · intro empty
    rw [empty] at text
    simp at text
  · intro current
    rw [current] at text
    cases front : stem.toList <;> simp [front, spelled] at text
  · intro parent
    rw [parent] at text
    rw [spelled] at text
    cases front : stem.toList with
    | nil =>
        have dots : '.' = letter ∧ letters = [] := by simpa [front] using text
        refine own.single ?_
        rw [spelled, dots.1]
        exact .head _
    | cons first others => cases others <;> simp [front] at text
  · rw [text, List.mem_append, List.mem_cons, not_or, not_or]
    exact ⟨whole, by decide, own.whole⟩

theorem ne_of_suffix {name stem state : String} (single : '.' ∉ state.toList)
    (different : extension ≠ state) (ends : ("." ++ extension).toList <:+ name.toList) :
    name ≠ stem ++ "." ++ state := by
  rintro rfl
  have dotted : ("." ++ extension).toList = '.' :: extension.toList := by simp
  have suffix : '.' :: state.toList <:+ (stem ++ "." ++ state).toList := ⟨stem.toList, by simp⟩
  rw [dotted] at ends
  have same : '.' :: extension.toList = '.' :: state.toList := by
    rcases List.suffix_or_suffix_of_suffix ends suffix with inside | inside
    · rcases List.suffix_cons_iff.mp inside with same | further
      · exact same
      · exact absurd (further.subset (.head _)) single
    · rcases List.suffix_cons_iff.mp inside with same | further
      · exact same.symm
      · exact absurd (further.subset (.head _)) own.single
  exact different (String.toList_injective (List.cons.inj same).2)

theorem exists_join_of_mem_existing (wellFormed : files.WellFormed) {path : Path}
    (member : path ∈ existing files outputRoot className extension) :
    ∃ (directory : Path) (name : String), path = directory.join name ∧ IsName name ∧
      ("." ++ extension).toList <:+ name.toList := by
  rcases mem_existing_iff_unit_or_nested.mp member with unit | nested
  · refine ⟨_, _, unit.2.trans (unitPath_eq_join _ _ _), own.isName _ ?_,
      by simp [String.append_assoc]⟩
    have piece : Text.lastPiece '/' className ∈ Text.splitOn '/' className := by
      rw [splitOn_eq_append]
      simp
    obtain ⟨letters, found, text⟩ := List.mem_map.mp piece
    rw [← text, String.toList_ofList]
    exact Text.not_mem_of_mem_pieces found
  · obtain ⟨directory, names, name, -, listed, there, isNested, rfl⟩ := mem_nestedUnits_iff.mp nested
    rw [isNestedUnit, Bool.and_eq_true] at isNested
    exact ⟨directory, name, rfl, mem_names wellFormed listed name there,
      List.isSuffixOf_iff_suffix.mp isNested.2⟩

theorem moves_delete {directory : Path} {stem : String} (plain : directory.Plain)
    (isName : IsName stem) (outputRoot : Path) (className : String) :
    Moves (StaysAt (directory.join (stem ++ "." ++ "bin")))
      (delete outputRoot className extension) := by
  intro files
  by_cases wellFormed : files.WellFormed
  · have removes : ∀ path ∈ existing files outputRoot className extension,
        Moves (StaysAt (directory.join (stem ++ "." ++ "bin")))
          (ignoreMissing (removeFile path)) := by
      intro path member
      obtain ⟨outer, name, rfl, isOutput, ends⟩ := own.exists_join_of_mem_existing wellFormed member
      refine moves_ignoreMissing (moves_attempt (staysAt_refusals _) fun before after removed =>
        staysAt_withoutFile isOutput (Path.getLast?_steps_join outer isOutput) ?_ removed)
      have stored : IsName (stem ++ "." ++ "bin") := isName.withExtension (by decide)
      rw [placeFor, plain.steps_join stored.whole, ← List.append_assoc, List.getLast?_concat]
      exact fun same => own.ne_of_suffix (by decide) own.different ends (Option.some.inj same).symm
    rw [delete, ends_bind]
    exact Moves.forM removes files
  · exact (ends_true _ _).imp (fun _ _ _ inOrder => absurd inOrder wellFormed)
      fun _ _ _ inOrder => absurd inOrder wellFormed

end OwnExtension

theorem ends_delete (wellFormed : files.WellFormed) (plain : outputRoot.Plain)
    (isTypeName : IsTypeName className) (whole : '/' ∉ extension.toList) :
    Ends (delete outputRoot className extension) files
      (fun _ next => Clears outputRoot files next) (fun _ next => Clears outputRoot files next) := by
  have below := below_of_mem_existing wellFormed plain isTypeName whole
  rw [delete, ends_bind]
  exact Moves.forM (fun path member =>
    moves_ignoreMissing (moves_removeFile (below path member).near)) files

theorem moves_delete_refusesLess (outputRoot : Path) (className extension : String) :
    Moves RefusesLess (delete outputRoot className extension) :=
  Moves.bind (moves_inspect _) fun _ => Moves.forM fun path _ => moves_removeFile_refusesLess path

/-- Where the host does not say of what is there that it is missing, all outputs of the type are
gone. -/
theorem ends_delete_gone (wellFormed : files.WellFormed) (legible : files.LegibleBelow outputRoot)
    (plain : outputRoot.Plain) (isTypeName : IsTypeName className) (whole : '/' ∉ extension.toList)
    (honest : some .notFound ∉ files.refusals) :
    Ends (delete outputRoot className extension) files
      (fun _ next => ∀ path, IsOutput outputRoot className extension path →
        next.isFile path = false) (fun _ _ => True) := by
  have below := below_of_mem_existing wellFormed plain isTypeName whole
  rw [delete, ends_bind]
  change Ends ((existing files outputRoot className extension).forM _) files _ _
  let holds (rest : List Path) (next : FileSystem) : Prop :=
    rest ⊆ existing files outputRoot className extension ∧ Clears outputRoot files next ∧
      RefusesLess files next ∧ ∀ path, IsOutput outputRoot className extension path →
        path ∈ rest ∨ next.isFile path = false
  have gone : Ends ((existing files outputRoot className extension).forM fun path =>
      ignoreMissing (removeFile path)) files (fun _ next => holds [] next) fun _ _ => True := by
    refine Ends.forM holds ?_ _ files ⟨List.Subset.refl _, Accumulates.refl files,
      Accumulates.refl files, fun path isOutput => ?_⟩
    rotate_left
    · rw [or_iff_not_imp_right, Bool.not_eq_false]
      exact mem_existing wellFormed plain legible isTypeName whole isOutput
    rintro path rest next ⟨included, clears, less, gone⟩
    have inside := below path (included (.head _))
    refine (((ends_removeFile_gone (clears.wellFormed wellFormed) inside.plain
      fun refused => honest (less refused)).and
        ((moves_ignoreMissing (moves_removeFile inside.near)) next |>.imp (fun _ _ => id)
          fun _ _ _ => trivial)).and
        ((moves_removeFile_refusesLess path next).imp (fun _ _ => id) fun _ _ _ => trivial)).imp ?_
      fun _ _ _ => trivial
    rintro _ last ⟨⟨removed, further⟩, fewer⟩
    refine ⟨fun _ later => included (.tail _ later), Accumulates.trans clears further,
      Accumulates.trans less fewer, fun other isOutput => ?_⟩
    rcases gone other isOutput with listed | missing
    · rcases List.mem_cons.mp listed with rfl | later
      · exact .inr removed
      · exact .inl later
    · exact .inr (further.isFile missing)
  refine gone.imp ?_ fun _ _ _ => trivial
  rintro _ next ⟨-, -, -, gone⟩ path isOutput
  exact (gone path isOutput).resolve_left List.not_mem_nil

end Outputs

end AbiBuild
