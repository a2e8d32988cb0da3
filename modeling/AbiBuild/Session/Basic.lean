import AbiBuild.Build.Outputs
import AbiBuild.Build.Toolchain
import AbiBuild.Dependency.Impact

/-!
# Sessions

A session holds what is known about the sources of one source root and output root: the dependency
graph of their types, which source each type was last compiled from, and which type each source was
last seen to declare.
-/

namespace AbiBuild

open Files Dependency

structure Session where
  classToSource : Std.ExtTreeMap String Path compare
  sourceToClass : Std.ExtTreeMap Location String compare
  graph : Graph
  /-- Nothing was stored that this session could start from. -/
  isCold : Bool

namespace Session

def empty : Session := ⟨∅, ∅, .empty, true⟩

/-- The sources by their types, and the types by their sources.  Of two types stored for one source
the last one in order counts. -/
def ofStored (classToSource : Std.ExtTreeMap String Path compare) (graph : Graph) : Session where
  classToSource := classToSource
  sourceToClass := classToSource.toList.foldl (fun map (name, source) =>
    map.insert source.location name) ∅
  graph := graph
  isCold := false

/-! ## Questions -/

/-- The type that a source was last seen to declare. -/
def recordedType? (session : Session) (source : Path) : Option String :=
  session.sourceToClass[source.location]?

/-- The type that a source declares now or, when it is gone, declared last. -/
def typeOf (session : Session) (toolchain : Toolchain) (files : FileSystem) (source : Path) :
    Except BuildError String :=
  if files.pathExists source then toolchain.typeDeclaredBy files source
  else
    match session.recordedType? source with
    | some name => .ok name
    | none => .error (.unknownSource source.text)

def knownTypeOf (session : Session) (toolchain : Toolchain) (files : FileSystem) (source : Path) :
    Except BuildError String :=
  match session.recordedType? source with
  | some name => .ok name
  | none => session.typeOf toolchain files source

def typesAround (session : Session) (toolchain : Toolchain) (files : FileSystem) (source : Path) :
    Except BuildError Names := do
  let declared ←
    if files.pathExists source then
      (fun name => [name]) <$> toolchain.typeDeclaredBy files source
    else pure []
  match declared ++ (session.recordedType? source).toList with
  | [] => throw (.unknownSource source.text)
  | names => pure (Names.ofList names)

def sourceOf (session : Session) (name : String) : Except BuildError Path :=
  match session.classToSource[name]? with
  | some source => .ok source
  | none => .error (.unknownSource name)

/-- The sources to compile again because a source changed or is gone. -/
def impactOf (session : Session) (toolchain : Toolchain) (files : FileSystem) (source : Path) :
    Except BuildError PathSet := do
  let names ← session.typesAround toolchain files source
  let dependents := names.toList.flatMap fun name => (session.graph.impact name).toList
  let sources ← dependents.mapM session.sourceOf
  pure (PathSet.ofList sources)

/-- The outputs of the type of a source that exist. -/
def outputsOf (session : Session) (toolchain : Toolchain) (files : FileSystem) (outputRoot : Path)
    (source : Path) : Except BuildError (List Path) := do
  let name ← session.knownTypeOf toolchain files source
  pure (Outputs.existing files outputRoot name toolchain.outputExtension)

/-! ## Changes -/

def withoutClass (session : Session) (name : String) : Session :=
  { session with
    graph := session.graph.delete name
    classToSource := session.classToSource.erase name }

def withoutSource (session : Session) (source : Path) : Session :=
  { session with sourceToClass := session.sourceToClass.erase source.location }

def isOwnedBy (session : Session) (name : String) (source : Path) : Bool :=
  session.classToSource[name]?.any (·.location = source.location)

def record (session : Session) (name : String) (source : Path) : Session :=
  let released :=
    match session.classToSource[name]? with
    | some previous =>
      if previous.location ≠ source.location && session.recordedType? previous = some name then
        session.withoutSource previous
      else session
    | none => session
  { released with
    classToSource := released.classToSource.insert name source
    sourceToClass := released.sourceToClass.insert source.location name }

def learn (session : Session) (abi : SourceAbi) (source : Path) : Session :=
  { session with graph := session.graph.update abi }.record abi.className source

end Session

/-! ## Actions -/

structure OpenSession where
  session : Session
  world : World

/-- Steps of a session.  What a session has learned before a failure stays. -/
abbrev SessionAction := EStateM BuildError OpenSession

namespace SessionAction

/-- Does something that leaves the session alone. -/
def outside {α : Type} (action : BuildAction α) : SessionAction α := fun opened =>
  match action opened.world with
  | .ok value world => .ok value { opened with world }
  | .error error world => .error error { opened with world }

def current : SessionAction Session := fun opened => .ok opened.session opened

def revise (change : Session → Session) : SessionAction Unit := fun opened =>
  .ok () { opened with session := change opened.session }

/-- The answer of a function that may fail on the session and the files as they are. -/
def consult {α : Type} (look : Session → FileSystem → Except BuildError α) : SessionAction α :=
  fun opened =>
    match look opened.session opened.world.files with
    | .ok value => .ok value opened
    | .error error => .error error opened

/-- Goes through a session that is not needed afterwards. -/
def run {α : Type} (session : Session) (action : SessionAction α) : BuildAction α := fun world =>
  match action ⟨session, world⟩ with
  | .ok value opened => .ok value opened.world
  | .error error opened => .error error opened.world

end SessionAction

namespace Session

open SessionAction

def forgetClass (toolchain : Toolchain) (outputRoot : Path) (name : String) (source : Path) :
    SessionAction Unit := do
  if (← current).isOwnedBy name source then
    outside (BuildAction.change (Outputs.delete outputRoot name toolchain.outputExtension))
    revise (·.withoutClass name)

/-- A source with the type that it declares now. -/
structure Declaration where
  source : Path
  name : String

def forgetPrevious (toolchain : Toolchain) (outputRoot : Path) (batch : List Declaration)
    (declaration : Declaration) : SessionAction Unit := do
  match (← current).recordedType? declaration.source with
  | none => pure ()
  | some previous =>
    if previous ≠ declaration.name && batch.all (·.name ≠ previous) then
      forgetClass toolchain outputRoot previous declaration.source

def refreshOne (toolchain : Toolchain) (outputRoot : Path) (declaration : Declaration) :
    SessionAction Unit := do
  let unit := Outputs.unitPath outputRoot declaration.name toolchain.outputExtension
  let abi ← consult fun _ files => toolchain.surfaceOf files unit
  revise (·.learn abi declaration.source)

/-- Reads the surfaces of freshly compiled sources again.  A source that now declares another type
loses the outputs and the node of the one before. -/
def refresh (toolchain : Toolchain) (outputRoot : Path) (sources : List Path) :
    SessionAction Unit := do
  let batch ← sources.mapM fun source => do
    let name ← consult fun _ files => toolchain.typeDeclaredBy files source
    pure (Declaration.mk source name)
  batch.forM (forgetPrevious toolchain outputRoot batch)
  batch.forM (refreshOne toolchain outputRoot)

def removeSource (toolchain : Toolchain) (outputRoot source : Path) : SessionAction Unit := do
  match (← current).recordedType? source with
  | none => pure ()
  | some name =>
    revise (·.withoutSource source)
    forgetClass toolchain outputRoot name source

/-- Drops everything known of sources that are gone, with their outputs. -/
def removeSources (toolchain : Toolchain) (outputRoot : Path) (sources : List Path) :
    SessionAction Unit :=
  sources.forM (removeSource toolchain outputRoot)

end Session

end AbiBuild
