import AbiBuild.Build.Compile
import AbiBuild.Changes.Detector
import AbiBuild.CommandLine.Arguments
import AbiBuild.Java.Javac
import AbiBuild.Session.Snapshot
import AbiBuild.Text.Json

/-!
# Commands

What each command does once its arguments are understood.  A command ends with an exit code and may
print text; everything else it has to say is in the notices.
-/

namespace AbiBuild.CommandLine

open Files Changes

structure Outcome where
  exitCode : Int
  printed : String
  deriving DecidableEq, Repr

def defaultOutput (source : Path) : Path :=
  source.withFileName ((source.fileName?.getD "sources") ++ "-output")

def rootsOf (files : FileSystem) (sources : Path) (output : Option Path) :
    Except BuildError RootPair := do
  let source ← (files.canonical sources).mapError .io
  match output with
  | none => pure ⟨source, defaultOutput source⟩
  | some output =>
    match Path.absolute? files.directory output with
    | some output => pure ⟨source, output⟩
    | none => throw (.io .emptyPath)

/-! ## Compiling -/

def finish (detector : Detector) (pair : RootPair) (report : BuildReport) : BuildAction Unit := do
  if report.succeeded then detector.save pair
  else
    detector.clear pair
    BuildAction.notify (.commandFailed report.exitCode)

def buildOrRebuild (toolchain : Toolchain) (detector : Detector) (pair : RootPair)
    (request : BuildRequest) : BuildAction BuildReport := do
  try Build.compileSources toolchain request
  catch error =>
    if error.requiresFullRebuild then
      BuildAction.notify (.rebuilding error)
      detector.clear pair
      Build.compileSources toolchain { request with classpathChanged := true }
    else throw error

/-- One build of a pair of roots: finds what changed, builds, and keeps the digests. -/
def compilePair (layout : CacheLayout) (toolchain : Toolchain) (pair : RootPair)
    (classpath : List Path) : BuildAction Int := do
  let detector : Detector := ⟨layout.digestRoot, none, none⟩
  let (sources, detector) ← detector.sourceStates pair toolchain.sourceExtension
  if (SourceStates.present sources).isEmpty then
    BuildAction.notify (.noSources pair.source)
    return 1
  let (classpathChanged, detector) ← detector.classpathChanged pair classpath
  let directory ← BuildAction.inspect (·.directory)
  let report ← buildOrRebuild toolchain detector pair
    { classpath := PathSet.ofList classpath
      classpathChanged := classpathChanged
      outputRoot := pair.output
      cacheFile := layout.sessionFile pair directory
      sources := sources }
  finish detector pair report
  return report.exitCode

/-! ## The other commands -/

/-- Forgets what is stored for a pair of roots. -/
def clearPair (layout : CacheLayout) (pair : RootPair) : BuildAction Unit := do
  let detector : Detector := ⟨layout.digestRoot, none, none⟩
  detector.clear pair
  let cacheFile := layout.sessionFile pair (← BuildAction.inspect (·.directory))
  let session ← Session.start cacheFile
  SessionAction.run session (Session.reset cacheFile)

def snapshotJson (snapshot : ClassSnapshot) : Text.Json :=
  let texts (values : List String) : Text.Json := .list (values.map .text)
  .record
    [("name", .text snapshot.name),
      ("source", (snapshot.source.map fun source => Text.Json.text source.text).getD .null),
      ("public_dependencies", texts snapshot.publicDependencies),
      ("private_dependencies", texts snapshot.privateDependencies),
      ("dependents", texts snapshot.dependents)]

def graphJson (cacheFile : Path) (session : Session) : Text.Json :=
  .record
    [("cache_file", .text cacheFile.text),
      ("classes", .list (session.snapshot.map snapshotJson))]

def inspectPair (layout : CacheLayout) (pair : RootPair) : BuildAction String := do
  let cacheFile := layout.sessionFile pair (← BuildAction.inspect (·.directory))
  let session ← Session.start cacheFile
  pure ((graphJson cacheFile session).pretty ++ "\n")

/-! ## Everything together -/

def perform (environment : Environment) (launcher : Java.Launcher) (invocation : Invocation) :
    BuildAction Outcome := do
  let pair ← BuildAction.consult fun files => rootsOf files invocation.sources invocation.output
  let layout := CacheLayout.ofEnvironment environment
  match invocation.verb with
  | .compile =>
    let javac ← BuildAction.inspect fun files => Java.findJavac files environment
    let exitCode ←
      compilePair layout (Java.toolchain launcher javac) pair invocation.classpath
    pure ⟨exitCode, ""⟩
  | .clear =>
    clearPair layout pair
    pure ⟨0, ""⟩
  | .inspect => do
    pure ⟨0, ← inspectPair layout pair⟩

/-- Performs a command; an error is told and makes the exit code one. -/
def run (environment : Environment) (launcher : Java.Launcher) (invocation : Invocation) :
    BuildAction Outcome := do
  try perform environment launcher invocation
  catch error =>
    BuildAction.notify (.failure error)
    pure ⟨1, ""⟩

end AbiBuild.CommandLine
