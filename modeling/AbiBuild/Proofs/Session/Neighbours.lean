import AbiBuild.Build.PlainText
import AbiBuild.Proofs.Files.Reading
import AbiBuild.Proofs.Session.Dropping

/-!
# Units of neighbouring types

When a type is forgotten, its outputs are found by their names.  So the unit of another type is taken
for one of its outputs when the other type is called like a type nested in it, and only then.
-/

namespace AbiBuild

open Files FileSystem AbiBuild.Files.Path

/-! ## Names like those of nested types -/

/-- Neither the name of the type nor those of its packages are steps to another directory, and the
name of the type has no dot in it. -/
structure IsTopLevelName (name : String) : Prop where
  isTypeName : IsTypeName name
  undotted : '.' ∉ (Text.lastPiece '/' name).toList

instance (name : String) : Decidable (IsTopLevelName name) :=
  decidable_of_iff (IsTypeName name ∧ '.' ∉ (Text.lastPiece '/' name).toList)
    ⟨fun ⟨isTypeName, undotted⟩ => ⟨isTypeName, undotted⟩,
      fun isTopLevel => ⟨isTopLevel.isTypeName, isTopLevel.undotted⟩⟩

/-- The first name is that of a type nested in the second, as far as its text tells. -/
def LooksNestedIn (inner outer : String) : Prop :=
  ∃ rest : List Char, inner.toList = outer.toList ++ '$' :: rest ∧ '/' ∉ rest

namespace Text

theorem joinPieces_append_last {separator : Char} (front : List (List Char))
    (last more : List Char) : joinPieces separator (front ++ [last ++ more]) =
      joinPieces separator (front ++ [last]) ++ more := by
  induction front with
  | nil => rfl
  | cons piece front ih =>
      cases front with
      | nil => simp [joinPieces]
      | cons next front => simpa [joinPieces] using ih

theorem splitOn_append {text more : String} (whole : '/' ∉ more.toList) :
    splitOn '/' (text ++ more) = (splitOn '/' text).dropLast ++ [lastPiece '/' text ++ more] := by
  obtain ⟨front, last, split⟩ : ∃ front last, pieces '/' text.toList = front ++ [last] :=
    ⟨_, _, (List.dropLast_append_getLast (pieces_ne_nil '/' text.toList)).symm⟩
  have each : ∀ piece ∈ front ++ [last], '/' ∉ piece := by
    rw [← split]
    exact fun _ => not_mem_of_mem_pieces
  have added : pieces '/' (text.toList ++ more.toList) = front ++ [last ++ more.toList] := by
    rw [← joinPieces_pieces '/' text.toList, split, ← joinPieces_append_last]
    refine pieces_joinPieces (by simp) fun piece member => ?_
    rcases List.mem_append.mp member with before | here
    · exact each piece (List.mem_append_left _ before)
    · rw [List.mem_singleton.mp here, List.mem_append, not_or]
      exact ⟨each last (by simp), whole⟩
  have last : lastPiece '/' text = String.ofList last := by simp [lastPiece, splitOn, split]
  rw [last, splitOn, splitOn, String.toList_append, added, split]
  simp

theorem lastPiece_append {text more : String} (whole : '/' ∉ more.toList) :
    lastPiece '/' (text ++ more) = lastPiece '/' text ++ more := by
  rw [lastPiece, splitOn_append whole]
  simp

end Text

/-- A name looks nested when it is in the same package and the name of the type goes on with a dollar
sign. -/
theorem looksNestedIn_iff {inner outer : String} : LooksNestedIn inner outer ↔
    (Text.splitOn '/' inner).dropLast = (Text.splitOn '/' outer).dropLast ∧ ∃ rest,
      (Text.lastPiece '/' inner).toList = (Text.lastPiece '/' outer).toList ++ '$' :: rest := by
  constructor
  · rintro ⟨rest, text, whole⟩
    obtain rfl : inner = outer ++ String.ofList ('$' :: rest) :=
      String.toList_injective (by simpa using text)
    have whole : '/' ∉ (String.ofList ('$' :: rest)).toList := by simpa using whole
    rw [Text.splitOn_append whole, Text.lastPiece_append whole]
    simp
  · rintro ⟨package, rest, text⟩
    have listed : Text.lastPiece '/' inner ∈ (⟨inner⟩ : Path).segments := by
      rw [Path.segments, Outputs.splitOn_eq_append]
      simp
    have whole := not_mem_of_mem_segments listed
    rw [text, List.mem_append, not_or] at whole
    have same : inner = outer ++ String.ofList ('$' :: rest) := by
      apply Outputs.splitOn_injective
      rw [Text.splitOn_append (by simpa using whole.2), Outputs.splitOn_eq_append inner, package]
      congr 2
      exact String.toList_injective (by simpa using text)
    exact ⟨rest, by simp [same], fun slash => whole.2 (.tail _ slash)⟩

instance (inner outer : String) : Decidable (LooksNestedIn inner outer) :=
  decidable_of_iff ((Text.splitOn '/' inner).dropLast = (Text.splitOn '/' outer).dropLast ∧
      (Text.lastPiece '/' outer ++ "$").toList <+: (Text.lastPiece '/' inner).toList) <| by
    rw [looksNestedIn_iff]
    refine and_congr_right fun _ => exists_congr fun rest => ?_
    rw [String.toList_append, List.append_assoc, eq_comm]
    rfl

namespace Outputs

variable {files before after : FileSystem} {outputRoot path : Path}
  {className kept extension : String}

def unitNames (className extension : String) : List String :=
  (Text.splitOn '/' className).dropLast ++ [Text.lastPiece '/' className ++ "." ++ extension]

theorem location_unitPath (outputRoot : Path) (isTypeName : IsTypeName className)
    (whole : '/' ∉ extension.toList) : (unitPath outputRoot className extension).location =
      outputRoot.location ++ (unitNames className extension).map .name := by
  rw [unitPath_eq_join, location_join _ ((isName_lastPiece isTypeName).withExtension whole),
    unitDirectory, location_foldl_join _ (isName_front isTypeName), unitNames]
  simp

theorem looksNestedIn_of_isNestedUnit (undotted : '.' ∉ (Text.lastPiece '/' className).toList)
    (package : (Text.splitOn '/' kept).dropLast = (Text.splitOn '/' className).dropLast)
    (isNested : isNestedUnit (Text.lastPiece '/' className) extension
      (Text.lastPiece '/' kept ++ "." ++ extension)) : LooksNestedIn kept className := by
  rw [isNestedUnit, Bool.and_eq_true, List.isPrefixOf_iff_prefix] at isNested
  obtain ⟨starts, -⟩ := isNested
  have own : (Text.lastPiece '/' kept).toList <+:
      (Text.lastPiece '/' kept ++ "." ++ extension).toList := ⟨'.' :: extension.toList, by simp⟩
  refine looksNestedIn_iff.mpr ⟨package, ?_⟩
  rcases List.prefix_or_prefix_of_prefix starts own with ⟨rest, text⟩ | shorter
  · exact ⟨rest, by simp [← text]⟩
  · rw [String.toList_append, show "$".toList = ['$'] from rfl, List.prefix_concat_iff] at shorter
    rcases shorter with same | ⟨rest, longer⟩
    · exact ⟨[], same⟩
    · -- Then the dot of the unit would stand in the name of the other type or for its dollar sign.
      have dotted : rest ++ ['$'] <+: '.' :: extension.toList := by
        simpa [← longer, List.append_assoc] using starts
      cases rest with
      | nil => simp at dotted
      | cons letter rest =>
          obtain ⟨rfl, -⟩ := List.cons_prefix_cons.mp dotted
          exact absurd (by simp [← longer]) undotted

/-- An existing output of one type is at the unit of another type only when the other one looks
nested. -/
theorem ExistingOutput.exists_location (wellFormed : files.WellFormed)
    (isTopLevel : IsTopLevelName className) (whole : '/' ∉ extension.toList)
    (different : className ≠ kept) (apart : ¬LooksNestedIn kept className)
    (exists' : ExistingOutput files outputRoot className extension path) :
    ∃ names, path.location = outputRoot.location ++ names.map .name ∧
      names ≠ unitNames kept extension := by
  have unit := (isName_lastPiece isTopLevel.isTypeName).withExtension whole
  cases exists' with
  | unit isFile =>
      refine ⟨_, location_unitPath outputRoot isTopLevel.isTypeName whole, fun same => different ?_⟩
      obtain ⟨package, last⟩ := List.append_inj' same rfl
      have texts := congrArg String.toList (List.singleton_inj.mp last)
      simp only [String.toList_append, List.append_cancel_right_eq] at texts
      apply splitOn_injective
      rw [splitOn_eq_append className, splitOn_eq_append kept, package, String.toList_inj.mp texts]
  | @nested directory listed name beside lists member isNested =>
      have isName := mem_names wellFormed lists name member
      refine ⟨(Text.splitOn '/' className).dropLast ++ [name], ?_, fun same => apart ?_⟩
      · rw [unitPath_eq_join] at beside
        rw [location_join _ isName, location_of_parent?_join unit beside, unitDirectory,
          location_foldl_join _ (isName_front isTopLevel.isTypeName)]
        simp
      · obtain ⟨package, last⟩ := List.append_inj' same rfl
        rw [List.singleton_inj.mp last] at isNested
        exact looksNestedIn_of_isNestedUnit isTopLevel.undotted package.symm isNested

end Outputs

/-! ## What is read at a unit -/

def SparesReading (path : Path) (before after : FileSystem) : Prop :=
  before.WellFormed → after.WellFormed ∧ KeepsReading path before after

instance (path : Path) : Accumulates (SparesReading path) where
  refl files := fun wellFormed => ⟨wellFormed, Accumulates.refl files⟩
  trans first second := fun wellFormed =>
    ⟨(second (first wellFormed).1).1,
      Accumulates.trans (first wellFormed).2 (second (first wellFormed).1).2⟩

theorem sparesReading_refusals (path : Path) (files : FileSystem)
    (refusals : List (Option IoFault)) : SparesReading path files { files with refusals } :=
  fun wellFormed => ⟨⟨wellFormed.names, wellFormed.rooted, wellFormed.parents⟩,
    keepsReading_refusals path files refusals⟩

theorem sparesReading_withoutFile {path other : Path} {files next : FileSystem}
    (apart : other.placeFrom files.host.workingDirectory ≠ path.placeFrom files.host.workingDirectory)
    (removed : files.withoutFile other = .ok next) : SparesReading path files next := by
  refine fun wellFormed => ⟨?_, keepsReading_withoutFile apart removed⟩
  obtain ⟨place, content, -, found, rfl⟩ := exists_of_withoutFile removed
  exact wellFormed.dropEntry (by simp [found])

section Forgetting

variable {toolchain : Toolchain} {outputRoot : Path} {opened : OpenSession} {kept : String}
  {sources : List Path}

structure StandsClear (name kept : String) : Prop where
  isTopLevel : IsTopLevelName name
  different : name ≠ kept
  apart : ¬LooksNestedIn kept name

namespace Outputs

theorem sparesReading_delete {name extension : String} (clear : StandsClear name kept)
    (isTypeName : IsTypeName kept) (whole : '/' ∉ extension.toList) :
    Moves (SparesReading (unitPath outputRoot kept extension)) (delete outputRoot name extension) := by
  intro files
  by_cases wellFormed : files.WellFormed
  · rw [delete, ends_bind]
    refine Moves.forM (fun path member => ?_) files
    obtain ⟨names, location, different⟩ := (mem_existing_iff.mp member).exists_location wellFormed
      clear.isTopLevel whole clear.different clear.apart
    refine moves_ignoreMissing (moves_attempt (sparesReading_refusals _) fun before after removed =>
      sparesReading_withoutFile ?_ removed)
    rw [placeFrom_of_location location,
      placeFrom_of_location (location_unitPath outputRoot isTypeName whole)]
    exact fun same => different (List.append_cancel_left same)
  · exact (ends_true _ _).imp (fun _ _ _ inOrder => absurd inOrder wellFormed)
      fun _ _ _ inOrder => absurd inOrder wellFormed

end Outputs

structure OnlyForgets (path : Path) (before after : OpenSession) : Prop where
  files : SparesReading path before.world.files after.world.files
  types : ∀ (location : Location) (name : String),
    after.session.sourceToClass[location]? = some name →
      before.session.sourceToClass[location]? = some name
  owners : ∀ (name : String) (source : Path), after.session.classToSource[name]? = some source →
    before.session.classToSource[name]? = some source

instance (path : Path) : Accumulates (OnlyForgets path) where
  refl opened := ⟨Accumulates.refl opened.world.files, fun _ _ => id, fun _ _ => id⟩
  trans first second := ⟨Accumulates.trans first.files second.files,
    fun location name recorded => first.types location name (second.types location name recorded),
    fun name source found => first.owners name source (second.owners name source found)⟩

namespace Session

open SessionAction

variable (isTypeName : IsTypeName kept) (whole : '/' ∉ toolchain.outputExtension.toList)
include isTypeName whole

theorem ends_forgetClass_clear {name : String} {source : Path}
    (clear : opened.session.isOwnedBy name source → StandsClear name kept) :
    Ends (forgetClass toolchain outputRoot name source) opened
      (fun _ => OnlyForgets (Outputs.unitPath outputRoot kept toolchain.outputExtension) opened)
      (fun _ => OnlyForgets (Outputs.unitPath outputRoot kept toolchain.outputExtension) opened) := by
  refine ends_forgetClass_of (fun _ => Accumulates.refl opened) fun owned =>
    (Outputs.sparesReading_delete (clear owned) isTypeName whole opened.world.files).imp ?_ ?_
  · intro _ files keeps
    refine ⟨keeps, fun _ _ => id, fun other source found => ?_⟩
    rw [getElem?_classToSource_withoutClass] at found
    split at found
    next => cases found
    next => exact found
  · exact fun _ files keeps => ⟨keeps, fun _ _ => id, fun _ _ => id⟩

theorem ends_removeSources_clear
    (clear : ∀ source ∈ sources, ∀ name, opened.session.recordedType? source = some name →
      StandsClear name kept) :
    Ends (removeSources toolchain outputRoot sources) opened
      (fun _ => OnlyForgets (Outputs.unitPath outputRoot kept toolchain.outputExtension) opened)
      (fun _ => OnlyForgets (Outputs.unitPath outputRoot kept toolchain.outputExtension) opened) := by
  let holds (rest : List Path) (next : OpenSession) : Prop := rest ⊆ sources ∧
    OnlyForgets (Outputs.unitPath outputRoot kept toolchain.outputExtension) opened next
  have loop : Ends (removeSources toolchain outputRoot sources) opened (fun _ => holds [])
      (fun _ => OnlyForgets (Outputs.unitPath outputRoot kept toolchain.outputExtension) opened) := by
    refine Ends.forM holds ?_ sources opened ⟨List.Subset.refl _, Accumulates.refl opened⟩
    rintro source rest state ⟨included, forgets⟩
    have rest' : rest ⊆ sources := fun _ later => included (.tail _ later)
    refine ends_removeSource_of (fun _ => ⟨rest', forgets⟩) fun name recorded => ?_
    have clear := clear source (included (.head _)) name (forgets.types _ _ recorded)
    have released : OnlyForgets (Outputs.unitPath outputRoot kept toolchain.outputExtension) state
        { state with session := state.session.withoutSource source } := by
      refine ⟨Accumulates.refl state.world.files, fun location name recorded => ?_, fun _ _ => id⟩
      rw [getElem?_sourceToClass_withoutSource] at recorded
      split at recorded
      next => cases recorded
      next => exact recorded
    have before := Accumulates.trans forgets released
    exact (ends_forgetClass_clear isTypeName whole fun _ => clear).imp
      (fun _ _ further => ⟨rest', Accumulates.trans before further⟩)
      fun _ _ further => Accumulates.trans before further
  exact loop.imp (fun _ _ holds => holds.2) fun _ _ forgets => forgets

theorem ends_forgetPrevious_clear {batch : List Declaration} {declaration : Declaration}
    (clear : ∀ name, opened.session.lostType? batch declaration = some name → StandsClear name kept) :
    Ends (forgetPrevious toolchain outputRoot batch declaration) opened
      (fun _ => OnlyForgets (Outputs.unitPath outputRoot kept toolchain.outputExtension) opened)
      (fun _ => OnlyForgets (Outputs.unitPath outputRoot kept toolchain.outputExtension) opened) := by
  refine ends_forgetPrevious_of (fun _ => Accumulates.refl opened) fun previous recorded forgotten => ?_
  exact ends_forgetClass_clear isTypeName whole fun owned =>
    clear previous (lostType?_of_owned recorded forgotten owned)

theorem ends_refresh_clear
    (clear : ∀ source ∈ sources, ∀ name, opened.session.recordedType? source = some name →
      Drops toolchain opened sources name → StandsClear name kept) :
    Ends (refresh toolchain outputRoot sources) opened
      (fun _ next => SparesReading (Outputs.unitPath outputRoot kept toolchain.outputExtension)
        opened.world.files next.world.files)
      (fun _ next => SparesReading (Outputs.unitPath outputRoot kept toolchain.outputExtension)
        opened.world.files next.world.files) := by
  simp only [refresh, ends_bind]
  refine (ends_declarations toolchain sources opened).imp ?_ ?_
  · rintro batch next ⟨same, sameSources, declared⟩
    rw [same]
    let holds (rest : List Declaration) (next : OpenSession) : Prop := rest ⊆ batch ∧
      OnlyForgets (Outputs.unitPath outputRoot kept toolchain.outputExtension) opened next
    have loop : Ends (batch.forM (forgetPrevious toolchain outputRoot batch)) opened
        (fun _ => holds [])
        (fun _ => OnlyForgets (Outputs.unitPath outputRoot kept toolchain.outputExtension) opened) := by
      refine Ends.forM holds ?_ batch opened ⟨List.Subset.refl _, Accumulates.refl opened⟩
      rintro declaration rest state ⟨included, forgets⟩
      have listed : declaration ∈ batch := included (.head _)
      refine (ends_forgetPrevious_clear isTypeName whole fun name lost => ?_).imp
        (fun _ _ further => ⟨fun _ later => included (.tail _ later), Accumulates.trans forgets further⟩)
        fun _ _ further => Accumulates.trans forgets further
      obtain ⟨recorded, unclaimed, owned⟩ := (lostType?_eq_some_iff listed name).mp lost
      obtain ⟨path, found, here⟩ := (isOwnedBy_iff ..).mp owned
      have member : declaration.source ∈ sources := by
        rw [← sameSources]
        exact List.mem_map_of_mem listed
      refine clear _ member name (forgets.types _ _ recorded)
        ⟨⟨path, forgets.owners _ _ found, _, member, here.symm⟩, fun source listed declares => ?_⟩
      rw [← sameSources] at listed
      obtain ⟨other, member, rfl⟩ := List.mem_map.mp listed
      rw [declared other member] at declares
      exact unclaimed other member (Except.ok.inj declares)
    refine loop.imp ?_ fun _ _ forgets => forgets.files
    rintro _ middle ⟨-, forgets⟩
    have reads : Moves (OnOpenFiles (SparesReading
        (Outputs.unitPath outputRoot kept toolchain.outputExtension)))
        (batch.forM (refreshOne toolchain outputRoot)) :=
      Moves.forM fun _ _ => Moves.bind (moves_look _) fun _ => moves_revise _
    exact (reads middle).imp (fun _ _ further => Accumulates.trans forgets.files further)
      fun _ _ further => Accumulates.trans forgets.files further
  · rintro _ _ rfl
    exact Accumulates.refl _

end Session

end Forgetting

/-! ## Units that stay -/

namespace Session

open SessionAction

/-- No output of a type is at the unit of another type, unless the other one is called like a type nested
in it; then its unit is taken for one of them.  So sources may be removed or declare other types: the unit
of a type that is not forgotten reads as before, however this ends, if the type is not called like one
nested in a forgotten type. -/
theorem forgetting_spares_other_units {toolchain : Toolchain} {opened : OpenSession} {kept : String}
    (wellFormed : opened.world.files.WellFormed) (whole : '/' ∉ toolchain.outputExtension.toList)
    (named : ∀ source name, opened.session.recordedType? source = some name → IsTopLevelName name)
    (isTypeName : IsTypeName kept) (outputRoot : Path) :
    (∀ source name, opened.session.recordedType? source = some name → name ≠ kept →
      (∀ path ∈ Outputs.existing opened.world.files outputRoot name toolchain.outputExtension,
        path.location = (Outputs.unitPath outputRoot kept toolchain.outputExtension).location →
          LooksNestedIn kept name) ∧
      (outputRoot.Plain → opened.world.files.LegibleBelow outputRoot → LooksNestedIn kept name →
        opened.world.files.isFile (Outputs.unitPath outputRoot kept toolchain.outputExtension) →
          Outputs.unitPath outputRoot kept toolchain.outputExtension ∈
            Outputs.existing opened.world.files outputRoot name toolchain.outputExtension)) ∧
    ∀ content, opened.world.files.read
        (Outputs.unitPath outputRoot kept toolchain.outputExtension) = .ok content →
      ∀ sources,
        ((∀ source ∈ sources, ∀ name, opened.session.recordedType? source = some name →
            name ≠ kept ∧ ¬LooksNestedIn kept name) →
          Ends (removeSources toolchain outputRoot sources) opened
            (fun _ next => next.world.files.read
              (Outputs.unitPath outputRoot kept toolchain.outputExtension) = .ok content)
            (fun _ next => next.world.files.read
              (Outputs.unitPath outputRoot kept toolchain.outputExtension) = .ok content)) ∧
        ((∀ name, Drops toolchain opened sources name → name ≠ kept ∧ ¬LooksNestedIn kept name) →
          Ends (refresh toolchain outputRoot sources) opened
            (fun _ next => next.world.files.read
              (Outputs.unitPath outputRoot kept toolchain.outputExtension) = .ok content)
            (fun _ next => next.world.files.read
              (Outputs.unitPath outputRoot kept toolchain.outputExtension) = .ok content)) := by
  refine ⟨fun source name recorded different =>
      ⟨fun path listed same => ?_, fun plain legible looks isFile => ?_⟩,
    fun content reads sources => ⟨fun clear => ?_, fun clear => ?_⟩⟩
  · by_contra apart
    obtain ⟨names, location, elsewhere⟩ := (Outputs.mem_existing_iff.mp listed).exists_location
      wellFormed (named source name recorded) whole different apart
    rw [location, Outputs.location_unitPath outputRoot isTypeName whole, List.append_cancel_left_eq]
      at same
    exact elsewhere (List.map_injective_iff.mpr (fun _ _ => Component.name.inj) same)
  · have isTypeNameOuter := (named source name recorded).isTypeName
    refine Outputs.mem_existing wellFormed plain legible isTypeNameOuter whole (.inr ⟨_, ?_,
      (Outputs.isName_lastPiece isTypeName).withExtension whole, ?_⟩) isFile
    · rw [Outputs.unitPath_eq_join, Outputs.unitDirectory, (looksNestedIn_iff.mp looks).1,
        Outputs.unitDirectory]
    · obtain ⟨rest, text⟩ := (looksNestedIn_iff.mp looks).2
      rw [Outputs.isNestedUnit, Bool.and_eq_true, List.isPrefixOf_iff_prefix,
        List.isSuffixOf_iff_suffix]
      exact ⟨⟨rest ++ '.' :: toolchain.outputExtension.toList, by simp [text]⟩,
        ⟨(Text.lastPiece '/' kept).toList, by simp⟩⟩
  · refine (ends_removeSources_clear isTypeName whole fun source member name recorded => ?_).imp
      (fun _ _ forgets => (forgets.files wellFormed).2.read reads)
      fun _ _ forgets => (forgets.files wellFormed).2.read reads
    obtain ⟨different, apart⟩ := clear source member name recorded
    exact ⟨named source name recorded, different, apart⟩
  · refine (ends_refresh_clear isTypeName whole fun source _ name recorded drops => ?_).imp
      (fun _ _ keeps => (keeps wellFormed).2.read reads) fun _ _ keeps => (keeps wellFormed).2.read reads
    obtain ⟨different, apart⟩ := clear name drops
    exact ⟨named source name recorded, different, apart⟩

/-- Three types, of which one is called like a type nested in the first one.  The source of the first
one declares another type by now. -/
def neighbours : OpenSession where
  session := .ofStored (Std.ExtTreeMap.ofList
    [("A", ⟨"src/A.java"⟩), ("A$B", ⟨"src/A$B.java"⟩), ("AB", ⟨"src/AB.java"⟩)] compare) .empty
  world :=
    { files :=
        { entries := Std.ExtTreeMap.ofList
            [(["out"], .directory), (["out", "A.class"], .file (Text.Utf8.encode "A")),
              (["out", "A$B.class"], .file (Text.Utf8.encode "A$B")),
              (["out", "AB.class"], .file (Text.Utf8.encode "AB")),
              (["out", "C.class"], .file (Text.Utf8.encode "C")), (["src"], .directory),
              (["src", "A.java"], .file (Text.Utf8.encode "C")),
              (["src", "A$B.java"], .file (Text.Utf8.encode "A$B")),
              (["src", "AB.java"], .file (Text.Utf8.encode "AB"))] compare
          host := { workingDirectory := [] } } }

private theorem neighbours_hold :
    neighbours.session.Paired ∧ neighbours.world.files.WellFormed ∧
    (∀ entry ∈ neighbours.session.sourceToClass.toList, IsTopLevelName entry.2) ∧
    neighbours.session.recordedType? ⟨"src/A.java"⟩ = some "A" ∧
    neighbours.session.recordedType? ⟨"src/A$B.java"⟩ = some "A$B" ∧
    (neighbours.session.withoutSource ⟨"src/A.java"⟩).isOwnedBy "A" ⟨"src/A.java"⟩ ∧
    neighbours.world.files.isFile (Outputs.unitPath ⟨"out"⟩ "A" "class") ∧
    neighbours.world.files.isFile (Outputs.unitPath ⟨"out"⟩ "A$B" "class") ∧
    Outputs.nestedUnits neighbours.world.files (Outputs.unitPath ⟨"out"⟩ "A" "class")
      (Text.lastPiece '/' "A") "class" = [Outputs.unitPath ⟨"out"⟩ "A$B" "class"] ∧
    compare (Outputs.unitPath ⟨"out"⟩ "A" "class") (Outputs.unitPath ⟨"out"⟩ "A$B" "class") = .gt := by
  decide +kernel

private theorem existing_neighbours : Outputs.existing neighbours.world.files ⟨"out"⟩ "A" "class" =
    [Outputs.unitPath ⟨"out"⟩ "A$B" "class", Outputs.unitPath ⟨"out"⟩ "A" "class"] := by
  obtain ⟨-, -, -, -, -, -, own, -, nested, order⟩ := neighbours_hold
  rw [Outputs.existing, nested, if_pos own]
  simp [List.mergeSort, List.MergeSort.Internal.splitInTwo, order]

private theorem removal_holds :
    let removal := [Outputs.unitPath ⟨"out"⟩ "A$B" "class", Outputs.unitPath ⟨"out"⟩ "A" "class"].forM
      fun path => ignoreMissing (removeFile path)
    returns removal neighbours.world.files ∧
      (stateAfter removal neighbours.world.files).isFile
        (Outputs.unitPath ⟨"out"⟩ "A$B" "class") = false := by
  decide +kernel

/-- `A$B` is a type of its own, and still its unit goes with those of `A`. -/
theorem forgetting_takes_units_called_nested :
    neighbours.session.Paired ∧ neighbours.world.files.WellFormed ∧
    IsTopLevelName "A" ∧ IsTopLevelName "A$B" ∧
    neighbours.session.recordedType? ⟨"src/A.java"⟩ = some "A" ∧
    neighbours.session.recordedType? ⟨"src/A$B.java"⟩ = some "A$B" ∧
    Outputs.unitPath ⟨"out"⟩ "A$B" "class" ∈
      Outputs.existing neighbours.world.files ⟨"out"⟩ "A" "class" ∧
    neighbours.world.files.isFile (Outputs.unitPath ⟨"out"⟩ "A$B" "class") ∧
    Ends (removeSources PlainText.toolchain ⟨"out"⟩ [⟨"src/A.java"⟩]) neighbours
      (fun _ next => next.world.files.isFile (Outputs.unitPath ⟨"out"⟩ "A$B" "class") = false)
      (fun _ _ => False) := by
  obtain ⟨paired, wellFormed, named, recorded, recordedOther, owned, -, isFile, -, -⟩ :=
    neighbours_hold
  refine ⟨paired, wellFormed, by decide, by decide, recorded, recordedOther, ?_, isFile, ?_⟩
  · rw [existing_neighbours]
    exact .head _
  · obtain ⟨_, removes⟩ := exists_of_returns removal_holds.1
    change Ends (removeSource PlainText.toolchain ⟨"out"⟩ ⟨"src/A.java"⟩ >>= fun _ => pure ()) _ _ _
    simp only [removeSource, forgetClass, ends_bind, ends_current, recorded, ends_revise, if_pos owned,
      ends_outside, ends_change, Outputs.delete]
    change Ends ((Outputs.existing neighbours.world.files ⟨"out"⟩ "A" "class").forM _)
      neighbours.world.files _ _
    rw [existing_neighbours, Ends, removes]
    simpa only [ends_pure] using removal_holds.2

/-- The unit of `AB` stays when `A` is forgotten, and is not among its outputs. -/
theorem forgetting_spares_other_units_beside :
    (∀ path ∈ Outputs.existing neighbours.world.files ⟨"out"⟩ "A" "class",
      path.location ≠ (Outputs.unitPath ⟨"out"⟩ "AB" "class").location) ∧
    (stateAfter (removeSources PlainText.toolchain ⟨"out"⟩ [⟨"src/A.java"⟩]) neighbours).world.files.read
      (Outputs.unitPath ⟨"out"⟩ "AB" "class") = .ok (Text.Utf8.encode "AB") ∧
    (stateAfter (refresh PlainText.toolchain ⟨"out"⟩ [⟨"src/A.java"⟩]) neighbours).world.files.read
      (Outputs.unitPath ⟨"out"⟩ "AB" "class") = .ok (Text.Utf8.encode "AB") := by
  obtain ⟨paired, wellFormed, named, recorded, -⟩ := neighbours_hold
  obtain ⟨outputs, stays⟩ := @forgetting_spares_other_units PlainText.toolchain neighbours "AB"
    wellFormed (by decide) (fun source name recorded => named (_, name)
      (Std.ExtTreeMap.mem_toList_iff_getElem?_eq_some.mpr recorded)) (by decide) ⟨"out"⟩
  obtain ⟨stays, staysToo⟩ := stays (Text.Utf8.encode "AB") (eq_ok_of_toOption (by decide +kernel))
    [⟨"src/A.java"⟩]
  refine ⟨fun path listed same => ?_, (stays ?_).stateAfter, (staysToo ?_).stateAfter⟩
  · exact absurd ((outputs _ "A" recorded (by decide)).1 path listed same) (by decide)
  · intro source member name found
    rw [List.mem_singleton.mp member, recorded] at found
    obtain rfl := Option.some.inj found
    decide
  · rintro name ⟨⟨path, found, source, member, here⟩, -⟩
    have recorded' := paired.recordedType?_of_classToSource found
    rw [List.mem_singleton.mp member] at here
    rw [recordedType?, ← here] at recorded'
    obtain rfl := Option.some.inj (recorded.symm.trans recorded')
    decide

end Session

end AbiBuild
