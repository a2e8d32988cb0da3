import AbiBuild.Build.PlainText
import AbiBuild.Proofs.Build.RecompileSet
import AbiBuild.Proofs.Session.Reached

/-!
# Incremental builds

What an incremental build hands to the compiler.
-/

namespace AbiBuild

open Files SessionAction

namespace Build

variable {toolchain : Toolchain} {request : BuildRequest}

/-! ## The sources handed to the compiler -/

/-- Neither a changed class path nor a missing graph asks for more, and there is something to do. -/
structure TakesIncremental (session : Session) (request : BuildRequest) : Prop where
  sameClasspath : request.classpathChanged = false
  hasGraph : lacksGraph session request.sources = false
  pending : isUpToDate request.sources = false

/-- What is left of an incremental build after the compiler was run on some sources. -/
def conclude (toolchain : Toolchain) (request : BuildRequest) (recompile : PathSet)
    (exitCode : Int) : SessionAction BuildReport := do
  if exitCode = 0 then commit toolchain request recompile
  else outside (BuildAction.notify (.compilerFailed exitCode))
  pure ⟨.incremental, exitCode, recompile⟩

theorem recompile_of_plan {session : Session} {files : FileSystem} {set : PathSet} {found : Plan}
    (computes : recompileSet session toolchain files request.sources = .ok set)
    (plans : plan session toolchain files request = .ok found) : found.recompile = set := by
  obtain ⟨recompile, computed, rest⟩ := bind_eq_ok.mp plans
  obtain ⟨outputs, -, rest⟩ := bind_eq_ok.mp rest
  obtain rfl := Except.ok.inj rest
  exact Except.ok.inj (computed.symm.trans computes)

theorem choose_eq_incremental {session : Session} (takes : TakesIncremental session request)
    (world : World) :
    choose toolchain request ⟨session, world⟩ = incremental toolchain request ⟨session, world⟩ := by
  have same : (do
      if lacksGraph (← current) request.sources then
        outside (BuildAction.notify (.noCache request.cacheFile))
        full toolchain request
      else if isUpToDate request.sources then pure ⟨.unchanged, 0, ∅⟩
      else incremental toolchain request : SessionAction BuildReport) ⟨session, world⟩ =
      incremental toolchain request ⟨session, world⟩ := by
    simp only [bind, EStateM.bind, current, takes.hasGraph, takes.pending, Bool.false_eq_true,
      if_false]
  rw [choose, if_neg (by simp [takes.sameClasspath])]
  exact same

theorem incremental_eq {session : Session} {world : World} {set : PathSet}
    (computes : recompileSet session toolchain world.files request.sources = .ok set) :
    incremental toolchain request ⟨session, world⟩ = (do
      let precompiled ← consult fun session files =>
        Plan.precompiled <$> plan session toolchain files request
      let exitCode ← outside (compileAny toolchain request precompiled set)
      conclude toolchain request set exitCode) ⟨session, world⟩ := by
  cases plans : plan session toolchain world.files request with
  | error error =>
      simp only [incremental, bind, EStateM.bind, consult, plans, Functor.map, Except.map]
  | ok found =>
      have same := recompile_of_plan computes plans
      simp only [incremental, conclude, bind, EStateM.bind, consult, plans, Functor.map, Except.map,
        same]

/-- From a session that builds lead to, an incremental build hands exactly the sources to the
compiler that are new or changed, and those whose type depends, by way of types that mention the
next one publicly, on a type whose surface may differ.  The same sources are in its report. -/
theorem recompiles_exactly {session : Session} {world started : World} {set : PathSet}
    (reached : Session.Reached toolchain session)
    (starts : Session.start request.cacheFile world = .ok session started)
    (takes : TakesIncremental session request)
    (consistent : Consistent session toolchain started.files request.sources)
    (computes : recompileSet session toolchain started.files request.sources = .ok set) :
    (∀ path, path ∈ set ↔
      MustCompile session toolchain started.files request.sources path) ∧
    (∀ path ∈ set, ∃ state, request.sources[path]? = some state ∧ state ≠ .removed) ∧
    compileSources toolchain request world = SessionAction.run session (do
      let precompiled ← consult fun session files =>
        Plan.precompiled <$> plan session toolchain files request
      let exitCode ← outside (compileAny toolchain request precompiled set)
      conclude toolchain request set exitCode) started := by
  obtain ⟨paired, mirrored⟩ := reached.sound
  have exact := mem_recompileSet paired mirrored consistent computes
  refine ⟨exact, ?_, ?_⟩
  · intro path member
    rcases (exact path).mp member with added | changed | ⟨unchanged, -⟩
    · exact ⟨_, added, by decide⟩
    · exact ⟨_, changed, by decide⟩
    · exact ⟨_, unchanged, by decide⟩
  · have runs : compileSources toolchain request world =
        SessionAction.run session (choose toolchain request) started := by
      simp only [compileSources, bind, EStateM.bind, starts]
    rw [runs, SessionAction.run, SessionAction.run, choose_eq_incremental takes,
      incremental_eq computes]

/-! ## A toolchain whose units may name another type -/

section Loose

def compileLoosely (outputRoot source : Path) : BuildAction Unit := do
  let text ← BuildAction.consult fun files => (files.readText source).mapError .io
  let name ← BuildAction.consult (PlainText.typeDeclaredBy · source)
  BuildAction.change (FileSystem.write (Outputs.unitPath outputRoot name "class")
    (Text.Utf8.encode (String.intercalate "\n" ((Text.lines text).drop 1))))

def looseToolchain : Toolchain :=
  { PlainText.toolchain with
    compile := fun request => do
      request.sources.toList.forM (compileLoosely request.outputRoot)
      pure 0 }

def completed? (toolchain : Toolchain) (request : BuildRequest) (world : World) :
    Option (BuildReport × World) :=
  match compileSources toolchain request world with
  | .ok report next => if report.succeeded then some (report, next) else none
  | .error _ _ => none

def worldAfter (toolchain : Toolchain) (request : BuildRequest) (world : World) : World :=
  ((completed? toolchain request world).map (·.2)).getD world

theorem compileSources_of_completed? {world : World}
    (completes : (completed? toolchain request world).isSome) :
    ∃ report, compileSources toolchain request world =
      .ok report (worldAfter toolchain request world) ∧ report.succeeded := by
  unfold worldAfter
  unfold completed? at completes ⊢
  generalize compileSources toolchain request world = result at completes ⊢
  cases result with
  | error _ _ => simp at completes
  | ok report next =>
      by_cases good : report.succeeded
      · exact ⟨report, by simp [good], good⟩
      · simp [good] at completes

/-- The type `A` mentions `D` in private. -/
def looseWorld : World where
  files :=
    { entries := Std.ExtTreeMap.ofList
        [(["out"], .directory), (["src"], .directory),
          (["src", "A.java"], .file (Text.Utf8.encode "A\nA\nprivate D")),
          (["src", "D.java"], .file (Text.Utf8.encode "D\nD"))] compare
      host := { workingDirectory := [] } }

def looseSources : PathSet := .ofList [⟨"src/A.java"⟩, ⟨"src/D.java"⟩]

def looseRequest (first second : SourceState) : BuildRequest where
  classpath := ∅
  classpathChanged := false
  outputRoot := ⟨"out"⟩
  cacheFile := ⟨"solver.bin"⟩
  sources := Std.ExtTreeMap.ofList [(⟨"src/A.java"⟩, first), (⟨"src/D.java"⟩, second)] compare

private theorem recompileSet_of_dependent {session : Session} {toolchain : Toolchain}
    {files : FileSystem} {sources : SourceStates} {kept path owner : Path} {names : Names}
    {root name : String}
    (listed : sources.toList = [(kept, .notChanged), (path, .changed)])
    (around : session.typesAround toolchain files path = .ok names)
    (single : names.toList = [root])
    (alone : session.graph.publicDependents root = [])
    (dependent : ((Names.ofList (session.graph.dependents root)).erase root).toList = [name])
    (owned : session.classToSource[name]? = some owner) :
    recompileSet session toolchain files sources = .ok
      ((PathSet.ofList (path :: (PathSet.ofList [owner]).toList)).filter fun path =>
        !(PathSet.ofList (sources.inState [.removed])).contains path) := by
  have impacts : session.impactOf toolchain files path = .ok (PathSet.ofList [owner]) := by
    have belongs : session.sourceOf name = .ok owner := sourceOf_eq_ok.mpr owned
    rw [Session.impactOf, around]
    simp only [bind, Except.bind, single, List.flatMap_cons, List.flatMap_nil, List.append_nil,
      Dependency.Graph.impact_of_publicDependents_eq_nil alone, dependent]
    rw [List.mapM_cons, belongs]
    rfl
  rw [recompileSet, listed]
  simp only [List.mapM_cons, List.mapM_nil, reached, impacts]
  rfl

/-- The world after both sources were built. -/
def looseBuilt : World :=
  worldAfter looseToolchain (looseRequest .added .added) looseWorld

/-- A later version of `A` has the unit of a type `X` that mentions nothing. -/
def looseEdited : World :=
  { looseBuilt with
    files := looseBuilt.files.setEntry ["src", "A.java"] (.file (Text.Utf8.encode "A\nX")) }

/-- The world after only `A` was built again. -/
def looseRebuilt : World :=
  worldAfter looseToolchain (looseRequest .added .notChanged) looseEdited

def looseSession : Session :=
  match Session.load looseRebuilt.files ⟨"solver.bin"⟩ with
  | .ok session => session
  | .error _ => .empty

private theorem consistent_of_lists {session : Session} {toolchain : Toolchain}
    {files : FileSystem} {sources : SourceStates}
    (recorded : ∀ entry ∈ session.classToSource.toList, sources.contains entry.2)
    (gone : ∀ entry ∈ sources.toList, entry.2 = .removed → files.pathExists entry.1 = false)
    (apart : ∀ first ∈ sources.toList, ∀ second ∈ sources.toList,
      (standsFor? session toolchain files first).isSome →
        standsFor? session toolchain files second = standsFor? session toolchain files first →
          first = second) :
    Consistent session toolchain files sources where
  recorded name source found := by
    have listed := Std.ExtTreeMap.mem_toList_iff_getElem?_eq_some.mpr found
    exact Std.ExtTreeMap.contains_iff_mem.mp (recorded (name, source) listed)
  gone path listed := gone (path, .removed) listed rfl
  apart first listed second listedOther name stands standsOther :=
    apart first listed second listedOther (by rw [stands]; rfl) (standsOther.trans stands.symm)

private theorem sources_looseRequest : (looseRequest .notChanged .changed).sources.toList =
    [(⟨"src/A.java"⟩, .notChanged), (⟨"src/D.java"⟩, .changed)] := by
  decide +kernel

private theorem looseSession_holds :
    (completed? looseToolchain (looseRequest .added .added) looseWorld).isSome ∧
    (completed? looseToolchain (looseRequest .added .notChanged) looseEdited).isSome ∧
    looseRebuilt.files.pathExists ⟨"solver.bin"⟩ ∧
    (Session.load looseRebuilt.files ⟨"solver.bin"⟩).toOption.isSome ∧
    looseSession.recordedType? ⟨"src/A.java"⟩ = some "X" ∧
    (looseSession.graph.edgesOf "X").toList = [] ∧
    looseSession.classToSource["A"]? = some ⟨"src/A.java"⟩ ∧
    looseSession.graph.publicDependents "D" = [] ∧
    ((Names.ofList (looseSession.graph.dependents "D")).erase "D").toList = ["A"] ∧
    looseSession.typesAround looseToolchain looseRebuilt.files ⟨"src/D.java"⟩ =
      .ok (Names.ofList ["D"]) ∧
    lacksGraph looseSession (looseRequest .notChanged .changed).sources = false ∧
    (∀ entry ∈ looseSession.classToSource.toList,
      (looseRequest .notChanged .changed).sources.contains entry.2) ∧
    (∀ first ∈ (looseRequest .notChanged .changed).sources.toList,
      ∀ second ∈ (looseRequest .notChanged .changed).sources.toList,
      (standsFor? looseSession looseToolchain looseRebuilt.files first).isSome →
        standsFor? looseSession looseToolchain looseRebuilt.files second =
          standsFor? looseSession looseToolchain looseRebuilt.files first → first = second) := by
  decide +kernel

def looseLearned? : Option OpenSession :=
  match Session.refresh looseToolchain ⟨"out"⟩ looseSources.toList ⟨.empty, looseBuilt⟩ with
  | .ok _ next => some next
  | .error _ _ => none

def looseLearned : OpenSession := looseLearned?.getD ⟨.empty, looseBuilt⟩

theorem refresh_looseSources (succeeds : looseLearned?.isSome) :
    Session.refresh looseToolchain ⟨"out"⟩ looseSources.toList ⟨.empty, looseBuilt⟩ =
      .ok () looseLearned := by
  unfold looseLearned
  unfold looseLearned? at succeeds ⊢
  generalize Session.refresh looseToolchain ⟨"out"⟩ looseSources.toList ⟨.empty, looseBuilt⟩ =
    result at succeeds ⊢
  cases result with
  | ok _ next => rfl
  | error _ _ => simp at succeeds

def looseReopened : Session :=
  .ofStored looseLearned.session.classToSource looseLearned.session.graph

private theorem looseLearned_holds :
    looseLearned?.isSome ∧
    Session.ReadsFaithfully looseToolchain ⟨"out"⟩ looseSources.toList looseBuilt.files
      looseLearned.world.files ∧
    looseBuilt.files.pathExists ⟨"solver.bin"⟩ ∧
    looseBuilt.files.read ⟨"solver.bin"⟩ = .ok looseLearned.session.toCacheData.encode ∧
    looseLearned.session.toCacheData.encode.length < 2 ^ 32 ∧
    looseReopened.classToSource["A"]? = some ⟨"src/A.java"⟩ ∧
    looseReopened.graph.publicDependents "D" = [] ∧
    ((Names.ofList (looseReopened.graph.dependents "D")).erase "D").toList = ["A"] ∧
    looseReopened.typesAround looseToolchain looseBuilt.files ⟨"src/D.java"⟩ =
      .ok (Names.ofList ["D"]) ∧
    lacksGraph looseReopened (looseRequest .notChanged .changed).sources = false ∧
    (∀ entry ∈ looseReopened.classToSource.toList,
      (looseRequest .notChanged .changed).sources.contains entry.2) ∧
    (∀ first ∈ (looseRequest .notChanged .changed).sources.toList,
      ∀ second ∈ (looseRequest .notChanged .changed).sources.toList,
      (standsFor? looseReopened looseToolchain looseBuilt.files first).isSome →
        standsFor? looseReopened looseToolchain looseBuilt.files second =
          standsFor? looseReopened looseToolchain looseBuilt.files first → first = second) := by
  decide +kernel

/-- After a build of both sources a change of `D.java` takes `A.java` along. -/
theorem recompiles_exactly_dependent :
    Session.Reached looseToolchain looseReopened ∧ ∃ set,
      recompileSet looseReopened looseToolchain looseBuilt.files
        (looseRequest .notChanged .changed).sources = .ok set ∧
      ⟨"src/A.java"⟩ ∈ set ∧
      MustCompile looseReopened looseToolchain looseBuilt.files
        (looseRequest .notChanged .changed).sources ⟨"src/A.java"⟩ := by
  obtain ⟨refreshes, faithful, present, stored, short, owned, alone, dependent, around, hasGraph,
    listed, apart⟩ := looseLearned_holds
  have reached : Session.Reached looseToolchain looseReopened := by
    have start : Session.Reached looseToolchain (OpenSession.mk .empty looseBuilt).session := .empty
    exact .reopen (.refresh start (refresh_looseSources refreshes) faithful)
  have computes := recompileSet_of_dependent sources_looseRequest around (by decide +kernel) alone
    dependent owned
  have starts : Session.start (looseRequest .notChanged .changed).cacheFile looseBuilt =
      .ok looseReopened looseBuilt :=
    Session.start_of_load present (Session.load_of_read short stored)
  have takes : TakesIncremental looseReopened (looseRequest .notChanged .changed) :=
    ⟨rfl, hasGraph, by decide +kernel⟩
  have consistent := consistent_of_lists listed (by decide +kernel) apart
  have holds := recompiles_exactly reached starts takes consistent computes
  have member : ⟨"src/A.java"⟩ ∈ ((PathSet.ofList (⟨"src/D.java"⟩ ::
      (PathSet.ofList [⟨"src/A.java"⟩]).toList)).filter fun path => !(PathSet.ofList
        ((looseRequest .notChanged .changed).sources.inState [.removed])).contains path) := by
    decide +kernel
  exact ⟨reached, _, computes, member, (holds.1 _).mp member⟩

/-- Where a unit names another type than its source, a source can be compiled again although the
type recorded for it depends on nothing: after two builds that succeeded, `A.java` is recorded with
the type `X`, but the node of `A` still leads to it. -/
theorem recompiles_more_when_unfaithful :
    ∃ first second, compileSources looseToolchain (looseRequest .added .added) looseWorld =
        .ok first looseBuilt ∧ first.succeeded ∧
      compileSources looseToolchain (looseRequest .added .notChanged) looseEdited =
        .ok second looseRebuilt ∧ second.succeeded ∧
      ∃ set, Session.start ⟨"solver.bin"⟩ looseRebuilt = .ok looseSession looseRebuilt ∧
        TakesIncremental looseSession (looseRequest .notChanged .changed) ∧
        Consistent looseSession looseToolchain looseRebuilt.files
          (looseRequest .notChanged .changed).sources ∧
        recompileSet looseSession looseToolchain looseRebuilt.files
          (looseRequest .notChanged .changed).sources = .ok set ∧
        ⟨"src/A.java"⟩ ∈ set ∧
        ¬MustCompile looseSession looseToolchain looseRebuilt.files
          (looseRequest .notChanged .changed).sources ⟨"src/A.java"⟩ := by
  obtain ⟨first, second, stored, loads, recorded, nothing, owned, alone, dependent, around,
    hasGraph, listed, apart⟩ := looseSession_holds
  obtain ⟨report, builds, good⟩ := compileSources_of_completed? first
  obtain ⟨rereport, rebuilds, regood⟩ := compileSources_of_completed? second
  have opens : Session.load looseRebuilt.files ⟨"solver.bin"⟩ = .ok looseSession := by
    unfold looseSession
    split
    next => assumption
    next error failed => simp [failed, Except.toOption] at loads
  refine ⟨report, rereport, builds, good, rebuilds, regood, _, Session.start_of_load stored opens,
    ⟨rfl, hasGraph, by decide +kernel⟩,
    consistent_of_lists listed (by decide +kernel) apart,
    recompileSet_of_dependent sources_looseRequest around (by decide +kernel) alone dependent owned,
    by decide +kernel, ?_⟩
  rintro (added | changed | ⟨-, name, root, declares, ⟨middle, isPrivate, depends, -⟩, -⟩)
  · exact absurd added (by decide +kernel)
  · exact absurd changed (by decide +kernel)
  · rw [recorded] at declares
    obtain rfl := Option.some.inj declares
    rw [Dependency.Graph.DependsOn, ← Std.ExtTreeSet.mem_toList, nothing] at depends
    simp at depends

end Loose

end Build

end AbiBuild
