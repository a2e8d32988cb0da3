import AbiBuild.Session.Cache

/-!
# Builds

A build compiles everything, nothing, or the changed sources and what depends on them.  When the
compiler succeeds, the session takes in the new surfaces and is stored; when it fails, what is stored
stays as it is.
-/

namespace AbiBuild

open Files

inductive BuildMode
  | full
  | unchanged
  | incremental
  deriving DecidableEq, Repr

structure BuildReport where
  mode : BuildMode
  /-- Zero also when the compiler was not needed. -/
  exitCode : Int
  recompiled : PathSet

def BuildReport.succeeded (report : BuildReport) : Bool := report.exitCode = 0

abbrev SourceStates := PathMap SourceState

namespace SourceStates

def inState (sources : SourceStates) (states : List SourceState) : List Path :=
  (sources.toList.filter fun (_, state) => states.contains state).map (·.1)

/-- The sources that exist. -/
def present (sources : SourceStates) : List Path :=
  sources.inState [.added, .changed, .notChanged]

end SourceStates

/-- What a build is asked to bring up to date. -/
structure BuildRequest where
  classpath : PathSet
  classpathChanged : Bool
  outputRoot : Path
  cacheFile : Path
  sources : SourceStates

namespace Build

open SessionAction

/-- Runs the compiler if there is anything to compile. -/
def compileAny (toolchain : Toolchain) (request : BuildRequest) (precompiled sources : PathSet) :
    BuildAction Int :=
  if sources.isEmpty then pure 0
  else toolchain.compile ⟨request.outputRoot, request.classpath, precompiled, sources⟩

/-! ## Everything -/

def commitFull (toolchain : Toolchain) (request : BuildRequest) (sources : PathSet) :
    SessionAction Unit := do
  Session.reset request.cacheFile
  Session.refresh toolchain request.outputRoot sources.toList
  Session.persist request.cacheFile

def full (toolchain : Toolchain) (request : BuildRequest) : SessionAction BuildReport := do
  let sources := PathSet.ofList request.sources.present
  outside (BuildAction.change (FileSystem.recreateDirectory request.outputRoot))
  let exitCode ← outside (compileAny toolchain request ∅ sources)
  if exitCode = 0 then commitFull toolchain request sources
  else outside (BuildAction.notify (.compilerFailed exitCode))
  pure ⟨.full, exitCode, sources⟩

/-! ## What changed and what depends on it -/

/-- The sources to compile and the outputs that stay valid. -/
structure Plan where
  recompile : PathSet
  precompiled : PathSet

/-- What one source adds to the sources to compile. -/
def reached (session : Session) (toolchain : Toolchain) (files : FileSystem)
    (entry : Path × SourceState) : Except BuildError (List Path) :=
  match entry with
  | (_, .notChanged) => pure []
  | (path, .added) => pure [path]
  | (path, .removed) => (·.toList) <$> session.impactOf toolchain files path
  | (path, .changed) => do
    pure (path :: (← session.impactOf toolchain files path).toList)

/-- The sources to compile; those that are gone are not among them. -/
def recompileSet (session : Session) (toolchain : Toolchain) (files : FileSystem)
    (sources : SourceStates) : Except BuildError PathSet := do
  let found ← sources.toList.mapM (reached session toolchain files)
  let removed := PathSet.ofList (sources.inState [.removed])
  pure ((PathSet.ofList found.flatten).filter fun path => !removed.contains path)

def plan (session : Session) (toolchain : Toolchain) (files : FileSystem)
    (request : BuildRequest) : Except BuildError Plan := do
  let recompile ← recompileSet session toolchain files request.sources
  let kept := request.sources.present.filter fun path => !recompile.contains path
  let outputs ← kept.mapM (session.outputsOf toolchain files request.outputRoot)
  pure ⟨recompile, PathSet.ofList outputs.flatten⟩

def redeclared (session : Session) (toolchain : Toolchain) (files : FileSystem)
    (removed : List Path) (recompile : PathSet) : Except BuildError (List String) :=
  if removed.isEmpty then pure [] else recompile.toList.mapM (session.typeOf toolchain files)

/-- A source that is gone and whose type another source declares now was moved; its outputs are
fresh. -/
def wasMoved (session : Session) (redeclared : List String) (source : Path) : Bool :=
  (session.recordedType? source).any redeclared.contains

def commit (toolchain : Toolchain) (request : BuildRequest) (recompile : PathSet) :
    SessionAction Unit := do
  let removed := request.sources.inState [.removed]
  let declared ← consult fun session files =>
    redeclared session toolchain files removed recompile
  let session ← current
  Session.removeSources toolchain request.outputRoot
    (removed.filter fun source => !wasMoved session declared source)
  Session.refresh toolchain request.outputRoot recompile.toList
  Session.persist request.cacheFile

def incremental (toolchain : Toolchain) (request : BuildRequest) : SessionAction BuildReport := do
  let plan ← consult fun session files => plan session toolchain files request
  let exitCode ← outside (compileAny toolchain request plan.precompiled plan.recompile)
  if exitCode = 0 then commit toolchain request plan.recompile
  else outside (BuildAction.notify (.compilerFailed exitCode))
  pure ⟨.incremental, exitCode, plan.recompile⟩

/-! ## The choice -/

def lacksGraph (session : Session) (sources : SourceStates) : Bool :=
  session.isCold && sources.toList.any (·.2 ≠ .added)

def isUpToDate (sources : SourceStates) : Bool :=
  sources.toList.all (·.2 = .notChanged)

def choose (toolchain : Toolchain) (request : BuildRequest) : SessionAction BuildReport := do
  if request.classpathChanged then full toolchain request
  else if lacksGraph (← current) request.sources then
    outside (BuildAction.notify (.noCache request.cacheFile))
    full toolchain request
  else if isUpToDate request.sources then pure ⟨.unchanged, 0, ∅⟩
  else incremental toolchain request

/-- Brings the outputs up to date with the sources. -/
def compileSources (toolchain : Toolchain) (request : BuildRequest) : BuildAction BuildReport := do
  let session ← Session.start request.cacheFile
  SessionAction.run session (choose toolchain request)

end Build

end AbiBuild
