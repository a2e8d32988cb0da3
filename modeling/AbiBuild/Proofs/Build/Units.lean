import AbiBuild.Proofs.Build.Updates

/-!
# Units that stay and units that are made

Removing the outputs of one type leaves the unit of every other type alone, unless that one is named
like a nested type.  So after a good build a unit is one that was made or one that was there.
-/

namespace AbiBuild

open Files FileSystem

/-! ## The units of different types -/

namespace Outputs

variable {files : FileSystem} {outputRoot : Path} {name other extension : String}

theorem not_mem_lastPiece {name : String} {letter : Char} (absent : letter ∉ name.toList) :
    letter ∉ (Text.lastPiece '/' name).toList := by
  intro member
  have piece : Text.lastPiece '/' name ∈ Text.splitOn '/' name := by
    rw [splitOn_eq_append]
    simp
  obtain ⟨letters, found, text⟩ := List.mem_map.mp piece
  rw [← text, String.toList_ofList] at member
  exact absent (Text.mem_of_mem_pieces found member)

theorem eq_of_fileNames {simple simple' ending rest rest' : List Char} (outer : '$' ∉ simple)
    (outer' : '$' ∉ simple') (outerEnding : '$' ∉ ending)
    (follows : rest = '.' :: ending ∨ ∃ inner, rest = '$' :: inner)
    (follows' : rest' = '.' :: ending ∨ ∃ inner, rest' = '$' :: inner)
    (same : simple ++ rest = simple' ++ rest') : simple = simple' := by
  rcases follows with rfl | ⟨inner, rfl⟩ <;> rcases follows' with rfl | ⟨inner', rfl⟩
  · exact List.append_cancel_right same
  · have dollar : '$' ∈ simple ++ '.' :: ending := by simp [same]
    simp [outer, outerEnding] at dollar
  · have dollar : '$' ∈ simple' ++ '.' :: ending := by simp [← same]
    simp [outer', outerEnding] at dollar
  · have pieces := congrArg (Text.pieces '$') same
    rw [Text.pieces_append, Text.pieces_append, Text.pieces_of_not_mem outer,
      Text.pieces_of_not_mem outer'] at pieces
    exact (List.cons.inj pieces).1

structure Foreign (outputRoot : Path) (name extension : String) (path : Path) : Prop where
  isTypeName : IsTypeName name
  below : Below outputRoot path
  apart : ∀ output, IsOutput outputRoot name extension output → steps path ≠ steps output

section Foreign

variable (plain : outputRoot.Plain) (isTypeName : IsTypeName name)
  (isTypeNameOther : IsTypeName other) (whole : '/' ∉ extension.toList)
  (outer : '$' ∉ other.toList) (outerExtension : '$' ∉ extension.toList) (different : name ≠ other)
include plain isTypeName isTypeNameOther whole outer outerExtension different

theorem foreign_unitPath : Foreign outputRoot name extension (unitPath outputRoot other extension) where
  isTypeName := isTypeName
  below := below_unitPath plain isTypeNameOther whole
  apart output isOutput same := by
    rcases isOutput with rfl | isNested
    · exact different (eq_of_steps_unitPath plain isTypeNameOther isTypeName whole same).symm
    · obtain ⟨nested, rfl, isName, isNested⟩ := isNested
      have below := below_unitDirectory isTypeName plain
      rw [steps_unitPath plain isTypeNameOther whole, below.plain.steps_join isName.whole] at same
      obtain ⟨-, last⟩ := List.append_inj' same rfl
      rw [isNestedUnit, Bool.and_eq_true, List.isPrefixOf_iff_prefix] at isNested
      have dollar : '$' ∈ nested.toList := isNested.1.subset (by simp)
      rw [← List.singleton_inj.mp last] at dollar
      simp only [String.toList_append, List.mem_append] at dollar
      rcases dollar with (inName | dot) | inExtension
      · exact not_mem_lastPiece outer inName
      · simp at dot
      · exact outerExtension inExtension

theorem IsOutput.foreign (outerName : '$' ∉ name.toList) {path : Path}
    (isOutput : IsOutput outputRoot other extension path) :
    Foreign outputRoot name extension path where
  isTypeName := isTypeName
  below := isOutput.below plain isTypeNameOther whole
  apart output isOutput' same := by
    obtain ⟨fileName, rest, steps, text, ends⟩ := isOutput.exists_steps plain isTypeNameOther whole
    obtain ⟨fileName', rest', steps', text', ends'⟩ := isOutput'.exists_steps plain isTypeName whole
    rw [steps, steps', List.append_assoc, List.append_assoc, List.append_cancel_left_eq] at same
    obtain ⟨front, last⟩ := List.append_inj' same rfl
    have last := List.singleton_inj.mp last
    rw [← String.toList_inj, text, text'] at last
    have simple := eq_of_fileNames (not_mem_lastPiece outer) (not_mem_lastPiece outerName)
      outerExtension ends ends' last
    refine different (splitOn_injective ?_)
    rw [splitOn_eq_append name, splitOn_eq_append other, front, String.toList_inj.mp simple]

end Foreign

theorem leaves_delete (wellFormed : files.WellFormed) (plain : outputRoot.Plain)
    (whole : '/' ∉ extension.toList) {path : Path} (foreign : Foreign outputRoot name extension path) :
    Ends (delete outputRoot name extension) files (fun _ next => Leaves path files next)
      (fun _ next => Leaves path files next) := by
  have isOutput : ∀ output ∈ existing files outputRoot name extension,
      IsOutput outputRoot name extension output :=
    fun _ => isOutput_of_mem_existing wellFormed plain foreign.isTypeName whole
  rw [delete, ends_bind]
  refine Moves.forM (fun output member => moves_ignoreMissing (moves_attempt (leaves_refusals _) ?_))
    files
  intro before after removed
  have below := (isOutput output member).below plain foreign.isTypeName whole
  refine (touches_withoutFile below.plain removed).leaves ?_
  intro listed there
  rw [List.mem_singleton.mp there]
  exact foreign.below.placeFor_ne below (foreign.apart output (isOutput output member)) before

end Outputs

/-! ## Forgetting other types -/

namespace Session

variable {toolchain : Toolchain} {outputRoot path : Path}

structure Passes (path : Path) (opened next : OpenSession) : Prop where
  files : Leaves path opened.world.files next.world.files
  records : ∀ source name, next.session.recordedType? source = some name →
    opened.session.recordedType? source = some name

instance (path : Path) : Accumulates (Passes path) where
  refl opened := ⟨Accumulates.refl opened.world.files, fun _ _ => id⟩
  trans first second := ⟨Accumulates.trans first.files second.files,
    fun source name recorded => first.records source name (second.records source name recorded)⟩

theorem passes_forM {α : Type} {step : α → SessionAction PUnit} (sourceOf : α → Path)
    (holds : String → Prop) {opened : OpenSession} {values : List α}
    (wellFormed : opened.world.files.WellFormed)
    (records : ∀ value ∈ values, ∀ name,
      opened.session.recordedType? (sourceOf value) = some name → holds name)
    (each : ∀ value next, next.world.files.WellFormed →
      (∀ name, next.session.recordedType? (sourceOf value) = some name → holds name) →
      Ends (step value) next (fun _ last => Passes path next last)
        (fun _ last => Passes path next last)) :
    Ends (values.forM step) opened (fun _ next => Passes path opened next)
      (fun _ next => Passes path opened next) := by
  refine (Ends.forM (fun rest next => Passes path opened next ∧ ∀ value ∈ rest, value ∈ values) ?_
    values opened ⟨Accumulates.refl opened, fun _ => id⟩).imp (fun _ _ both => both.1)
      fun _ _ passes => passes
  rintro value rest next ⟨passes, included⟩
  refine (each value next (passes.files.wellFormed wellFormed) fun name recorded => ?_).imp
    (fun _ _ further => ⟨Accumulates.trans passes further, fun value later =>
      included value (.tail _ later)⟩) fun _ _ => Accumulates.trans passes
  exact records _ (included value (.head _)) name (passes.records _ _ recorded)

section Foreign

variable (plain : outputRoot.Plain) (whole : '/' ∉ toolchain.outputExtension.toList)
include plain whole

theorem passes_forgetClass {name : String}
    (foreign : Outputs.Foreign outputRoot name toolchain.outputExtension path) (source : Path)
    (opened : OpenSession) (wellFormed : opened.world.files.WellFormed) :
    Ends (forgetClass toolchain outputRoot name source) opened
      (fun _ next => Passes path opened next) (fun _ next => Passes path opened next) := by
  refine ends_forgetClass_of (fun _ => Accumulates.refl opened) fun _ =>
    (Outputs.leaves_delete wellFormed plain whole foreign).imp ?_
      fun _ _ leaves => ⟨leaves, fun _ _ => id⟩
  intro _ files leaves
  refine ⟨leaves, fun source name => ?_⟩
  rw [recordedType?, sourceToClass_withoutClass]
  exact id

theorem passes_removeSources {sources : List Path} {opened : OpenSession}
    (wellFormed : opened.world.files.WellFormed)
    (foreign : ∀ source ∈ sources, ∀ name, opened.session.recordedType? source = some name →
      Outputs.Foreign outputRoot name toolchain.outputExtension path) :
    Ends (removeSources toolchain outputRoot sources) opened
      (fun _ next => Passes path opened next) (fun _ next => Passes path opened next) := by
  refine passes_forM id _ wellFormed foreign ?_
  intro source next wellFormed foreign
  refine ends_removeSource_of (fun _ => Accumulates.refl next) fun name recorded => ?_
  have first : Passes path next { next with session := next.session.withoutSource source } := by
    refine ⟨Accumulates.refl next.world.files, fun path name recorded => ?_⟩
    rw [recordedType?, getElem?_sourceToClass_withoutSource] at recorded
    split at recorded
    next => cases recorded
    next => exact recorded
  exact (passes_forgetClass plain whole (foreign name recorded) source
    { next with session := next.session.withoutSource source } wellFormed).imp
    (fun _ _ => Accumulates.trans first) fun _ _ => Accumulates.trans first

theorem passes_forM_forgetPrevious {batch : List Declaration} {opened : OpenSession}
    (wellFormed : opened.world.files.WellFormed)
    (foreign : ∀ declaration ∈ batch, ∀ name,
      opened.session.recordedType? declaration.source = some name →
      (∀ other ∈ batch, other.name ≠ name) →
      Outputs.Foreign outputRoot name toolchain.outputExtension path) :
    Ends (batch.forM (forgetPrevious toolchain outputRoot batch)) opened
      (fun _ next => Passes path opened next) (fun _ next => Passes path opened next) := by
  refine passes_forM Declaration.source _ wellFormed foreign ?_
  intro declaration next wellFormed foreign
  refine ends_forgetPrevious_of (fun _ => Accumulates.refl next) fun previous recorded unclaimed => ?_
  simp only [Bool.and_eq_true, decide_eq_true_eq, List.all_eq_true] at unclaimed
  exact passes_forgetClass plain whole (foreign previous recorded unclaimed.2) _ next wellFormed

theorem leaves_refresh {sources : List Path} {opened : OpenSession}
    (wellFormed : opened.world.files.WellFormed)
    (foreign : ∀ source ∈ sources, ∀ name, opened.session.recordedType? source = some name →
      (∀ other ∈ sources, toolchain.typeDeclaredBy opened.world.files other ≠ .ok name) →
      Outputs.Foreign outputRoot name toolchain.outputExtension path) :
    Ends (refresh toolchain outputRoot sources) opened
      (fun _ next => Leaves path opened.world.files next.world.files) (fun _ _ => True) := by
  rw [refresh, ends_bind]
  refine (ends_declarations toolchain sources opened).imp ?_ fun _ _ _ => trivial
  rintro batch middle ⟨unmoved, same, declared⟩
  rw [unmoved]
  have foreign : ∀ declaration ∈ batch, ∀ name,
      opened.session.recordedType? declaration.source = some name →
      (∀ other ∈ batch, other.name ≠ name) →
      Outputs.Foreign outputRoot name toolchain.outputExtension path := by
    intro declaration member name recorded unclaimed
    rw [← same] at foreign
    refine foreign _ (List.mem_map_of_mem member) name recorded ?_
    intro other listed declares
    obtain ⟨claimant, claims, rfl⟩ := List.mem_map.mp listed
    rw [declared claimant claims] at declares
    exact unclaimed claimant claims (Except.ok.inj declares)
  have reads : Moves (OnOpenFiles (Leaves path)) (batch.forM (refreshOne toolchain outputRoot)) :=
    Moves.forM fun declaration _ => Moves.bind (moves_look _) fun _ => moves_revise _
  rw [ends_bind]
  refine (passes_forM_forgetPrevious plain whole wellFormed foreign).imp ?_ fun _ _ _ => trivial
  intro _ middle passes
  exact (reads middle).imp (fun _ _ => Accumulates.trans passes.files) fun _ _ _ => trivial

end Foreign

/-! ## Units of other types -/

/-- The type has a unit that is not an output of another type. -/
structure Outer (outputRoot : Path) (extension name : String) : Prop where
  plain : outputRoot.Plain
  isTypeName : IsTypeName name
  whole : '/' ∉ extension.toList
  outer : '$' ∉ name.toList
  outerExtension : '$' ∉ extension.toList

def RecordsOthers (session : Session) (sources : List Path) (other : String) : Prop :=
  ∀ source ∈ sources, ∀ name, session.recordedType? source = some name →
    IsTypeName name ∧ name ≠ other

theorem RecordsOthers.foreign {session : Session} {sources : List Path} {extension other : String}
    (others : session.RecordsOthers sources other) (outer : Outer outputRoot extension other)
    {source : Path} (member : source ∈ sources) {name : String}
    (recorded : session.recordedType? source = some name) :
    Outputs.Foreign outputRoot name extension (Outputs.unitPath outputRoot other extension) := by
  obtain ⟨isTypeName, different⟩ := others source member name recorded
  exact Outputs.foreign_unitPath outer.plain isTypeName outer.isTypeName outer.whole outer.outer
    outer.outerExtension different

end Session

end AbiBuild
