import AbiBuild.Proofs.Build.LiveOutputs
import AbiBuild.Proofs.Build.Pruning

/-!
# What the compiler is shown

Beside the sources to compile the compiler gets the outputs of the sources that it does not compile.
They are found by recorded types and listings of directories, while the sources to compile are found
by paths and by the graph.  Still, the compiler never gets a type both ways.
-/

namespace AbiBuild

open Files FileSystem SessionAction

/-! ## Outputs at any output root -/

namespace Outputs

variable {files : FileSystem} {outputRoot path : Path} {className other extension : String}

theorem location_unitDirectory (isTypeName : IsTypeName className) (outputRoot : Path) :
    (unitDirectory outputRoot className).location =
      outputRoot.location ++ (Text.splitOn '/' className).dropLast.map .name :=
  Path.location_foldl_join outputRoot (isName_front isTypeName)

theorem ExistingOutput.exists_isOutput (wellFormed : files.WellFormed) (isTypeName : IsTypeName className)
    (whole : '/' ∉ extension.toList)
    (exists' : ExistingOutput files outputRoot className extension path) :
    ∃ output, IsOutput outputRoot className extension output ∧ output.location = path.location := by
  cases exists' with
  | unit isFile => exact ⟨_, .inl rfl, rfl⟩
  | @nested directory names name beside lists member isNested =>
      have isName := mem_names wellFormed lists name member
      rw [unitPath_eq_join] at beside
      have same := Path.location_of_parent?_join
        ((isName_lastPiece isTypeName).withExtension whole) beside
      refine ⟨_, .inr ⟨name, rfl, isName, isNested⟩, ?_⟩
      rw [Path.location_join _ isName, Path.location_join _ isName, same]

theorem IsOutput.exists_location (isTypeName : IsTypeName className) (whole : '/' ∉ extension.toList)
    (isOutput : IsOutput outputRoot className extension path) :
    ∃ (fileName : String) (rest : List Char),
      path.location = outputRoot.location ++ (Text.splitOn '/' className).dropLast.map .name ++
        [.name fileName] ∧
      fileName.toList = (Text.lastPiece '/' className).toList ++ rest ∧
      (rest = '.' :: extension.toList ∨ ∃ inner, rest = '$' :: inner) := by
  rw [← location_unitDirectory isTypeName]
  rcases isOutput with rfl | ⟨nested, rfl, isName, isNested⟩
  · refine ⟨Text.lastPiece '/' className ++ "." ++ extension, _, ?_, by simp, .inl rfl⟩
    rw [unitPath_eq_join, Path.location_join _ ((isName_lastPiece isTypeName).withExtension whole)]
  · rw [isNestedUnit, Bool.and_eq_true, List.isPrefixOf_iff_prefix] at isNested
    obtain ⟨inner, text⟩ := isNested.1
    refine ⟨nested, '$' :: inner, ?_, by rw [← text]; simp, .inr ⟨inner, rfl⟩⟩
    rw [Path.location_join _ isName]

theorem IsOutput.eq_of_location {output : Path} (isTypeName : IsTypeName className)
    (isTypeNameOther : IsTypeName other) (outer : '$' ∉ className.toList)
    (outerOther : '$' ∉ other.toList) (whole : '/' ∉ extension.toList)
    (outerExtension : '$' ∉ extension.toList)
    (isOutput : IsOutput outputRoot className extension path)
    (isOutputOther : IsOutput outputRoot other extension output)
    (same : path.location = output.location) : className = other := by
  obtain ⟨fileName, rest, there, text, follows⟩ := isOutput.exists_location isTypeName whole
  obtain ⟨fileName', rest', there', text', follows'⟩ :=
    isOutputOther.exists_location isTypeNameOther whole
  rw [there, there'] at same
  obtain ⟨directories, last⟩ := List.append_inj' same rfl
  obtain rfl := Component.name.inj (List.singleton_inj.mp last)
  rw [List.append_cancel_left_eq] at directories
  have front := List.map_injective_iff.mpr (fun _ _ => Component.name.inj) directories
  have simple := eq_of_fileNames (not_mem_lastPiece outer) (not_mem_lastPiece outerOther)
    outerExtension follows follows' (text.symm.trans text')
  refine splitOn_injective ?_
  rw [splitOn_eq_append className, splitOn_eq_append other, front, String.toList_inj.mp simple]

end Outputs

namespace Build

open Outputs

variable {toolchain : Toolchain} {request : BuildRequest} {opened : OpenSession} {found : Plan}

/-! ## The sources that are not compiled -/

theorem mem_recompileSet_of_listed {session : Session} {files : FileSystem} {sources : SourceStates}
    {set : PathSet} (computes : recompileSet session toolchain files sources = .ok set)
    {source : Path} {state : SourceState} (listed : (source, state) ∈ sources.toList)
    (new : state = .added ∨ state = .changed) : source ∈ set := by
  have present : source ∈ sources.present :=
    SourceStates.mem_inState.mpr ⟨state, by rcases new with rfl | rfl <;> simp, listed⟩
  obtain ⟨found, each, rest⟩ := bind_eq_ok.mp computes
  obtain rfl := Except.ok.inj rest
  rw [mem_filter_not_contains, PathSet.mem_ofList, PathSet.mem_ofList]
  constructor
  · obtain ⟨paths, member, result⟩ := exists_of_mem_values each listed
    obtain ⟨path, inside, here⟩ := (mem_reached result source).mpr (.inl ⟨new, rfl⟩)
    exact ⟨path, List.mem_flatten.mpr ⟨paths, member, inside⟩, here⟩
  · rintro ⟨gone, removed, same⟩
    exact location_ne_of_mem_present removed present same

theorem notChanged_of_not_mem {session : Session} {files : FileSystem} {sources : SourceStates}
    {set : PathSet} (computes : recompileSet session toolchain files sources = .ok set)
    {source : Path} (present : source ∈ sources.present) (kept : source ∉ set) :
    (source, .notChanged) ∈ sources.toList := by
  obtain ⟨state, wanted, listed⟩ := SourceStates.mem_inState.mp present
  cases state with
  | notChanged => exact listed
  | added => exact absurd (mem_recompileSet_of_listed computes listed (.inl rfl)) kept
  | changed => exact absurd (mem_recompileSet_of_listed computes listed (.inr rfl)) kept
  | removed => simp at wanted

structure Plans (toolchain : Toolchain) (request : BuildRequest) (opened : OpenSession)
    (found : Plan) (outputs : List (List Path)) : Prop where
  computes : recompileSet opened.session toolchain opened.world.files request.sources =
    .ok found.recompile
  finds : (request.sources.present.filter fun path => !found.recompile.contains path).mapM
    (opened.session.outputsOf toolchain opened.world.files request.outputRoot) = .ok outputs
  precompiled : found.precompiled = PathSet.ofList outputs.flatten

theorem exists_plans (plans : plan opened.session toolchain opened.world.files request = .ok found) :
    ∃ outputs, Plans toolchain request opened found outputs := by
  obtain ⟨recompile, computes, rest⟩ := bind_eq_ok.mp plans
  obtain ⟨outputs, finds, rest⟩ := bind_eq_ok.mp rest
  obtain rfl := Except.ok.inj rest
  exact ⟨outputs, computes, finds, rfl⟩

theorem outputsOf_of_recorded {session : Session} {files : FileSystem} {outputRoot source : Path}
    {name : String} (recorded : session.recordedType? source = some name) :
    session.outputsOf toolchain files outputRoot source =
      .ok (existing files outputRoot name toolchain.outputExtension) := by
  rw [Session.outputsOf, Session.knownTypeOf, recorded]
  rfl

/-! ## One version of every type -/

def IsThere (request : BuildRequest) (found : Plan) (source : Path) : Prop :=
  source ∈ request.sources.present ∨ source ∈ found.recompile.toList

/-- Every source that is there stands for a type of its own, and one that did not change for the type
on record. -/
structure Distinct (toolchain : Toolchain) (request : BuildRequest) (opened : OpenSession)
    (found : Plan) : Prop where
  paired : opened.session.Paired
  wellFormed : opened.world.files.WellFormed
  whole : '/' ∉ toolchain.outputExtension.toList
  outer : '$' ∉ toolchain.outputExtension.toList
  unchanged : ∀ source, (source, SourceState.notChanged) ∈ request.sources.toList → ∃ name,
    opened.session.recordedType? source = some name ∧
      toolchain.typeDeclaredBy opened.world.files source = .ok name
  apart : ∀ first second name, IsThere request found first → IsThere request found second →
    toolchain.typeDeclaredBy opened.world.files first = .ok name →
    toolchain.typeDeclaredBy opened.world.files second = .ok name → first.location = second.location
  recorded : ∀ source name, opened.session.recordedType? source = some name → IsTopLevel name
  declared : ∀ source name, IsThere request found source →
    toolchain.typeDeclaredBy opened.world.files source = .ok name → IsTopLevel name

/-- The type of a source that is gone, or of one that is compiled: the type that it declares now or
the one that it declared before. -/
inductive Outdated (toolchain : Toolchain) (request : BuildRequest) (opened : OpenSession)
    (found : Plan) (name : String) : Prop
  | removed {source : Path} (gone : source ∈ request.sources.inState [.removed])
      (recorded : opened.session.recordedType? source = some name)
  | declared {source : Path} (listed : source ∈ found.recompile.toList)
      (declares : toolchain.typeDeclaredBy opened.world.files source = .ok name)
  | previous {source : Path} (listed : source ∈ found.recompile.toList)
      (recorded : opened.session.recordedType? source = some name)

/-- The overlay holds an output of a source that is there and is not compiled. -/
def Overlaid (toolchain : Toolchain) (request : BuildRequest) (opened : OpenSession) (found : Plan)
    (path : Path) : Prop :=
  ∃ source name output, source ∈ request.sources.present ∧ source ∉ found.recompile ∧
    toolchain.typeDeclaredBy opened.world.files source = .ok name ∧
    ExistingOutput opened.world.files request.outputRoot name toolchain.outputExtension output ∧
    output.location = path.location

theorem mem_precompiled (distinct : Distinct toolchain request opened found)
    {outputs : List (List Path)} (plans : Plans toolchain request opened found outputs) (path : Path) :
    path ∈ found.precompiled ↔ Overlaid toolchain request opened found path := by
  have kept : ∀ source, source ∈ (request.sources.present.filter fun path =>
      !found.recompile.contains path) ↔
        source ∈ request.sources.present ∧ source ∉ found.recompile := by
    intro source
    rw [List.mem_filter, Std.ExtTreeSet.mem_iff_contains, Bool.not_eq_true', Bool.not_eq_true]
  rw [plans.precompiled, PathSet.mem_ofList]
  constructor
  · rintro ⟨output, inside, same⟩
    obtain ⟨paths, listed, inside⟩ := List.mem_flatten.mp inside
    obtain ⟨source, member, result⟩ := exists_of_mem_results plans.finds listed
    obtain ⟨present, untouched⟩ := (kept source).mp member
    obtain ⟨name, recorded, declares⟩ :=
      distinct.unchanged source (notChanged_of_not_mem plans.computes present untouched)
    rw [outputsOf_of_recorded recorded] at result
    obtain rfl := Except.ok.inj result
    exact ⟨source, name, output, present, untouched, declares, mem_existing_iff.mp inside, same⟩
  · rintro ⟨source, name, output, present, untouched, declares, exists', same⟩
    obtain ⟨paths, listed, result⟩ :=
      exists_of_mem_values plans.finds ((kept source).mpr ⟨present, untouched⟩)
    obtain ⟨name', recorded, declares'⟩ :=
      distinct.unchanged source (notChanged_of_not_mem plans.computes present untouched)
    obtain rfl := Except.ok.inj (declares.symm.trans declares')
    rw [outputsOf_of_recorded recorded] at result
    obtain rfl := Except.ok.inj result
    exact ⟨output, List.mem_flatten.mpr ⟨_, listed, mem_existing_iff.mpr exists'⟩, same⟩

theorem Distinct.ne_of_outdated (distinct : Distinct toolchain request opened found)
    {outputs : List (List Path)} (plans : Plans toolchain request opened found outputs)
    {source : Path} {name old : String} (present : source ∈ request.sources.present)
    (untouched : source ∉ found.recompile)
    (declares : toolchain.typeDeclaredBy opened.world.files source = .ok name)
    (outdated : Outdated toolchain request opened found old) : name ≠ old := by
  rintro rfl
  obtain ⟨name', recorded, declares'⟩ :=
    distinct.unchanged source (notChanged_of_not_mem plans.computes present untouched)
  obtain rfl := Except.ok.inj (declares.symm.trans declares')
  have elsewhere : ∀ other ∈ found.recompile.toList, other.location ≠ source.location :=
    fun other listed same => untouched ((PathSet.exists_mem_toList _ _).mpr ⟨other, listed, same⟩)
  cases outdated with
  | removed gone was =>
      exact location_ne_of_mem_present gone present (distinct.paired.location_eq was recorded)
  | declared listed now =>
      exact elsewhere _ listed (distinct.apart _ _ _ (.inr listed) (.inl present) now declares)
  | previous listed was => exact elsewhere _ listed (distinct.paired.location_eq was recorded)

theorem Outdated.isTopLevel (distinct : Distinct toolchain request opened found) {name : String}
    (outdated : Outdated toolchain request opened found name) : IsTopLevel name := by
  cases outdated with
  | removed _ recorded | previous _ recorded => exact distinct.recorded _ _ recorded
  | declared listed declares => exact distinct.declared _ _ (.inr listed) declares

/-- The compiler runs on the sources to compile with the existing outputs of all other sources that
are there, and with nothing else.  So no output of a type that it compiles, or that is gone, is among
what it is shown. -/
theorem compiler_sees_one_version (distinct : Distinct toolchain request opened found)
    (plans : plan opened.session toolchain opened.world.files request = .ok found)
    (reaches : found.recompile.isEmpty = false) :
    incremental toolchain request opened = (do
      let exitCode ← outside (toolchain.compile
        ⟨request.outputRoot, request.classpath, found.precompiled, found.recompile⟩)
      conclude toolchain request found.recompile exitCode) opened ∧
    (∀ path, path ∈ found.precompiled ↔ Overlaid toolchain request opened found path) ∧
    ∀ old, Outdated toolchain request opened found old → ∀ output,
      IsOutput request.outputRoot old toolchain.outputExtension output →
        output ∉ found.precompiled := by
  obtain ⟨outputs, made⟩ := exists_plans plans
  refine ⟨?_, mem_precompiled distinct made, fun old outdated output isOutput member => ?_⟩
  · have compiles : compileAny toolchain request found.precompiled found.recompile =
        toolchain.compile ⟨request.outputRoot, request.classpath, found.precompiled,
          found.recompile⟩ := by
      rw [compileAny, if_neg (by simp [reaches])]
    simp only [incremental, conclude, bind, EStateM.bind, consult, plans, compiles]
  · obtain ⟨source, name, shown, present, untouched, declares, exists', same⟩ :=
      (mem_precompiled distinct made output).mp member
    have isTopLevel := distinct.declared source name (.inl present) declares
    have isTopLevelOld := outdated.isTopLevel distinct
    obtain ⟨place, belongs, there⟩ := exists'.exists_isOutput distinct.wellFormed
      isTopLevel.isTypeName distinct.whole
    refine distinct.ne_of_outdated made present untouched declares outdated ?_
    exact belongs.eq_of_location isTopLevel.isTypeName isTopLevelOld.isTypeName isTopLevel.outer
      isTopLevelOld.outer distinct.whole distinct.outer isOutput (there.trans same)

section Shuffled

private theorem shuffled_there :
    shuffled.session.Paired ∧ shuffled.world.files.WellFormed ∧
    (∀ entry ∈ shuffledRequest.sources.toList, entry.2 = .notChanged →
      shuffled.session.recordedType? entry.1 = some "E" ∧
        (PlainText.typeDeclaredBy shuffled.world.files entry.1).toOption = some "E") ∧
    (∀ entry ∈ shuffled.session.classToSource.toList, IsTopLevel entry.1) ∧
    (∀ source ∈ shuffledRequest.sources.present ++ shuffledPlan.recompile.toList,
      (PlainText.typeDeclaredBy shuffled.world.files source).toOption.all
        fun name => decide (IsTopLevel name)) ∧
    (∀ source ∈ shuffledRequest.sources.present ++ shuffledPlan.recompile.toList,
      ∀ other ∈ shuffledRequest.sources.present ++ shuffledPlan.recompile.toList,
        (PlainText.typeDeclaredBy shuffled.world.files source).toOption =
          (PlainText.typeDeclaredBy shuffled.world.files other).toOption →
        source.location = other.location) ∧
    shuffledPlan.recompile.isEmpty = false ∧
    ⟨"out/E.class"⟩ ∈ shuffledPlan.precompiled ∧
    ⟨"src/B.java"⟩ ∈ shuffledRequest.sources.inState [.removed] ∧
    shuffled.session.recordedType? ⟨"src/B.java"⟩ = some "B" := by
  decide +kernel

/-- The type that moved to another source is shown in no old version. -/
theorem compiler_sees_one_version_shuffled :
    Distinct PlainText.toolchain shuffledRequest shuffled shuffledPlan ∧
      Overlaid PlainText.toolchain shuffledRequest shuffled shuffledPlan ⟨"out/E.class"⟩ ∧
      Outdated PlainText.toolchain shuffledRequest shuffled shuffledPlan "B" ∧
      ⟨"out/B$Y.class"⟩ ∉ shuffledPlan.precompiled := by
  obtain ⟨paired, wellFormed, unchanged, topLevel, declared, apart, reaches, shown, gone,
    recorded⟩ := shuffled_there
  have toOption : ∀ {source : Path} {name : String},
      PlainText.toolchain.typeDeclaredBy shuffled.world.files source = .ok name →
        (PlainText.typeDeclaredBy shuffled.world.files source).toOption = some name :=
    fun declares => congrArg Except.toOption declares
  have distinct : Distinct PlainText.toolchain shuffledRequest shuffled shuffledPlan :=
    { paired := paired
      wellFormed := wellFormed
      whole := by decide
      outer := by decide
      unchanged := by
        intro source listed
        obtain ⟨recorded, declares⟩ := unchanged _ listed rfl
        exact ⟨"E", recorded, eq_ok_of_toOption declares⟩
      apart := fun first second name isThere isThereOther declares declaresOther =>
        apart first (List.mem_append.mpr isThere) second (List.mem_append.mpr isThereOther)
          ((toOption declares).trans (toOption declaresOther).symm)
      recorded := by
        intro source name recorded
        obtain ⟨owner, owned, -⟩ := (paired _ _).mp recorded
        exact topLevel _ (Std.ExtTreeMap.mem_toList_iff_getElem?_eq_some.mpr owned)
      declared := by
        intro source name isThere declares
        have topLevel := declared source (List.mem_append.mpr isThere)
        rw [toOption declares] at topLevel
        simpa using topLevel }
  obtain ⟨-, overlay, current⟩ := compiler_sees_one_version distinct plan_shuffled reaches
  have outdated : Outdated PlainText.toolchain shuffledRequest shuffled shuffledPlan "B" :=
    .removed gone recorded
  refine ⟨distinct, (overlay _).mp shown, outdated, current "B" outdated _ (.inr ⟨"B$Y.class", ?_⟩)⟩
  decide +kernel

end Shuffled

end Build

end AbiBuild
