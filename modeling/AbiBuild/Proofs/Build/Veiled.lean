import AbiBuild.Proofs.Build.Overlay
import AbiBuild.Proofs.Files.Veil
import AbiBuild.Proofs.Session.Neighbours

/-!
# Builds do not see what is hidden

A build whose roots, sources and cache file stay away from what is hidden goes on alike in two trees
that differ only there, as long as the compiler and the readers do.
-/

namespace AbiBuild

open Files FileSystem SessionAction

namespace Files.Veil

variable {veil : Veil} {α β : Type}

/-! ## Worlds and sessions -/

/-- The trees are alike and the user was told the same. -/
structure WorldsAlike (veil : Veil) (world other : World) : Prop where
  files : veil.Alike world.files other.files
  notices : other.notices = world.notices

structure SessionsAlike (veil : Veil) (known : Session → Prop) (opened other : OpenSession) : Prop where
  worlds : veil.WorldsAlike opened.world other.world
  session : other.session = opened.session
  known : known opened.session

def ShowsSources (veil : Veil) (sources : SourceStates) : Prop :=
  ∀ entry ∈ sources.toList, veil.Shows entry.1

structure Knows (veil : Veil) (session : Session) : Prop where
  records : session.RecordsTypes
  sources : ∀ (name : String) (source : Path), session.classToSource[name]? = some source →
    veil.Shows source

namespace Knows

variable {session : Session} (knows : veil.Knows session)
include knows

theorem withoutClass (name : String) : veil.Knows (session.withoutClass name) where
  records := knows.records
  sources other source found := by
    rw [Session.getElem?_classToSource_withoutClass] at found
    split at found
    next => cases found
    next => exact knows.sources other source found

theorem withoutSource (source : Path) : veil.Knows (session.withoutSource source) :=
  ⟨knows.records.withoutSource source, knows.sources⟩

end Knows

theorem knows_forgetAll (session : Session) : veil.Knows session.forgetAll where
  records source name recorded := by simp [Session.recordedType?, Session.forgetAll] at recorded
  sources name source found := by simp [Session.forgetAll] at found

theorem knows_empty : veil.Knows .empty where
  records source name recorded := by simp [Session.recordedType?, Session.empty] at recorded
  sources name source found := by simp [Session.empty] at found

theorem inStep_inspectFiles {look : FileSystem → α}
    (same : ∀ files other, veil.Alike files other → look other = look files) :
    InStep veil.WorldsAlike (BuildAction.inspect look) := by
  intro world other alike
  rw [BuildAction.inspect, BuildAction.inspect, same _ _ alike.files]
  exact .returned alike

theorem directory_bind_alike {next : Path → BuildAction α} {done : α → World → World → Prop}
    {failed : BuildError → World → World → Prop} {world other : World}
    (alike : veil.WorldsAlike world other)
    (goesOn : EndAlike done failed (next veil.before.directory world)
      (next veil.before.directory other)) :
    EndAlike done failed ((BuildAction.inspect (·.directory) >>= next) world)
      ((BuildAction.inspect (·.directory) >>= next) other) := by
  have looks : ∀ world : World, world.files.host.workingDirectory = veil.home →
      BuildAction.inspect (·.directory) world = .ok veil.before.directory world := by
    intro world same
    rw [BuildAction.inspect, FileSystem.directory, same]
    rfl
  exact EndAlike.bind_of_ok (looks _ (congrArg _ alike.files.host))
    (looks _ alike.files.home') goesOn

theorem inStep_directory_bind {next : Path → BuildAction α}
    (goesOn : InStep veil.WorldsAlike (next veil.before.directory)) :
    InStep veil.WorldsAlike (BuildAction.inspect (·.directory) >>= next) :=
  fun _ _ alike => directory_bind_alike alike (goesOn _ _ alike)

theorem inStep_consultFiles {look : FileSystem → Except BuildError α}
    (same : ∀ files other, veil.Alike files other → look other = look files) :
    InStep veil.WorldsAlike (BuildAction.consult look) := by
  intro world other alike
  rw [BuildAction.consult, BuildAction.consult, same _ _ alike.files]
  cases look world.files with
  | ok value => exact .returned alike
  | error error => exact .failed alike

theorem inStep_tell (notice : Notice) : InStep veil.WorldsAlike (BuildAction.notify notice) := by
  intro world other alike
  exact .returned ⟨alike.files, by simp [alike.notices]⟩

theorem inStep_changeFiles {action : FileAction α} (inStep : InStep veil.Alike action) :
    InStep veil.WorldsAlike (BuildAction.change action) := by
  intro world other alike
  have ends := inStep _ _ alike.files
  rw [BuildAction.change, BuildAction.change]
  revert ends
  generalize action world.files = result
  generalize action other.files = result'
  rintro (done | failed)
  · exact .returned ⟨done, alike.notices⟩
  · exact .failed ⟨failed, alike.notices⟩

theorem inStep_tryChangeFiles {action : FileAction Unit} (inStep : InStep veil.Alike action) :
    InStep veil.WorldsAlike (BuildAction.tryChange action) := by
  intro world other alike
  have ends := inStep _ _ alike.files
  rw [BuildAction.tryChange, BuildAction.tryChange]
  revert ends
  generalize action world.files = result
  generalize action other.files = result'
  rintro (done | failed)
  · exact .returned ⟨done, alike.notices⟩
  · exact .returned ⟨failed, alike.notices⟩

section Sessions

variable {known : Session → Prop}

theorem inStep_outside {action : BuildAction α} (inStep : InStep veil.WorldsAlike action) :
    InStep (veil.SessionsAlike known) (outside action) := by
  intro opened other alike
  have ends := inStep _ _ alike.worlds
  rw [outside, outside]
  revert ends
  generalize action opened.world = result
  generalize action other.world = result'
  rintro (done | failed)
  · exact .returned ⟨done, alike.session, alike.known⟩
  · exact .failed ⟨failed, alike.session, alike.known⟩

theorem inStep_revise {change : Session → Session}
    (keeps : ∀ session, known session → known (change session)) :
    InStep (veil.SessionsAlike known) (revise change) := by
  intro opened other alike
  exact .returned ⟨alike.worlds, congrArg change alike.session, keeps _ alike.known⟩

theorem inStep_current_bind {next : Session → SessionAction α}
    (goesOn : ∀ session, known session → InStep (veil.SessionsAlike known) (next session)) :
    InStep (veil.SessionsAlike known) (current >>= next) := by
  intro opened other alike
  refine EndAlike.bind_of_ok rfl rfl ?_
  rw [alike.session]
  exact goesOn _ alike.known _ _ alike

theorem inStep_ask {look : Session → FileSystem → Except BuildError α}
    (same : ∀ session files other, known session → veil.Alike files other →
      look session other = look session files) :
    InStep (veil.SessionsAlike known) (SessionAction.consult look) := by
  intro opened other alike
  have answer := same _ _ _ alike.known alike.worlds.files
  rw [SessionAction.consult, SessionAction.consult, alike.session, answer]
  cases look opened.session opened.world.files with
  | ok value => exact .returned alike
  | error error => exact .failed alike

theorem eq_ok_of_consult {look : Session → FileSystem → Except BuildError α} {value : α}
    {opened next : OpenSession} (returns : SessionAction.consult look opened = .ok value next) :
    look opened.session opened.world.files = .ok value := by
  rw [SessionAction.consult] at returns
  split at returns
  next found => rw [found, (EStateM.Result.ok.inj returns).1]
  next => cases returns

theorem run_alike {session : Session} {action : SessionAction α} {world other : World}
    (ends : EndRelated (veil.SessionsAlike known) (action ⟨session, world⟩)
      (action ⟨session, other⟩)) :
    EndRelated veil.WorldsAlike (run session action world) (run session action other) := by
  rw [run, run]
  revert ends
  generalize action ⟨session, world⟩ = result
  generalize action ⟨session, other⟩ = result'
  rintro (done | failed)
  · exact .returned done.worlds
  · exact .failed failed.worlds

end Sessions

theorem SessionsAlike.weaken {known : Session → Prop} (opened other : OpenSession)
    (alike : veil.SessionsAlike known opened other) :
    veil.SessionsAlike (fun _ => True) opened other :=
  ⟨alike.worlds, alike.session, trivial⟩

end Files.Veil

open Veil

variable {veil : Veil} {toolchain : Toolchain} {request : BuildRequest} {outputRoot cacheFile : Path}
  {classpath : PathSet}

/-- What the compiler does and what is read of sources and units has nothing to do with what is
hidden.  What sources declare can have units. -/
structure Toolchain.Disregards (toolchain : Toolchain) (veil : Veil) (outputRoot : Path)
    (classpath : PathSet) : Prop where
  compiles : ∀ precompiled sources : PathSet, (∀ path ∈ precompiled.toList, veil.Shows path) →
    (∀ path ∈ sources.toList, veil.Shows path) →
      InStep veil.WorldsAlike (toolchain.compile ⟨outputRoot, classpath, precompiled, sources⟩)
  declares : ∀ files other source, veil.Alike files other → veil.Shows source →
    toolchain.typeDeclaredBy other source = toolchain.typeDeclaredBy files source
  names : ∀ files source name, toolchain.typeDeclaredBy files source = .ok name → IsTypeName name
  surfaces : ∀ files other name, veil.Alike files other → IsTypeName name →
    toolchain.surfaceOf other (Outputs.unitPath outputRoot name toolchain.outputExtension) =
      toolchain.surfaceOf files (Outputs.unitPath outputRoot name toolchain.outputExtension)
  whole : '/' ∉ toolchain.outputExtension.toList

/-! ## Outputs -/

namespace Outputs

variable {files other : FileSystem} {className extension : String}

theorem clears_parent_unitPath (clears : veil.Clears outputRoot) (isTypeName : IsTypeName className)
    (whole : '/' ∉ extension.toList) {directory : Path}
    (above : (unitPath outputRoot className extension).parent? = some directory) :
    veil.Clears directory := by
  rw [unitPath_eq_join] at above
  have same := Path.location_of_parent?_join ((isName_lastPiece isTypeName).withExtension whole) above
  exact (clears.of_location (location_unitDirectory isTypeName outputRoot)).congr same

theorem shows_unitPath (clears : veil.Clears outputRoot) (isTypeName : IsTypeName className)
    (whole : '/' ∉ extension.toList) : veil.Shows (unitPath outputRoot className extension) :=
  (clears.of_location (location_unitPath outputRoot isTypeName whole)).shows

theorem existing_alike (alike : veil.Alike files other) (clears : veil.Clears outputRoot)
    (isTypeName : IsTypeName className) (whole : '/' ∉ extension.toList) :
    existing other outputRoot className extension =
      existing files outputRoot className extension := by
  have nested : ∀ simpleName, nestedUnits other (unitPath outputRoot className extension) simpleName
      extension = nestedUnits files (unitPath outputRoot className extension) simpleName extension := by
    intro simpleName
    rw [nestedUnits, nestedUnits]
    cases above : (unitPath outputRoot className extension).parent? with
    | none => rfl
    | some directory =>
        dsimp only
        rw [alike.names (clears_parent_unitPath clears isTypeName whole above)]
  rw [existing, existing, alike.isFile (shows_unitPath clears isTypeName whole), nested]

theorem shows_of_mem_existing (alike : veil.Alike files other) (clears : veil.Clears outputRoot)
    (isTypeName : IsTypeName className) (whole : '/' ∉ extension.toList) {path : Path}
    (member : path ∈ existing files outputRoot className extension) : veil.Shows path := by
  rcases mem_existing_iff.mp member with isFile | @⟨directory, names, name, above, lists, listed, -⟩
  · exact shows_unitPath clears isTypeName whole
  · obtain ⟨place, entry, found⟩ := exists_of_mem_names lists listed
    have isName : IsName name := alike.named _ entry found _ (by simp)
    exact ((clears_parent_unitPath clears isTypeName whole above).join isName).shows

theorem inStep_delete (clears : veil.Clears outputRoot) (isTypeName : IsTypeName className)
    (whole : '/' ∉ extension.toList) :
    InStep veil.Alike (delete outputRoot className extension) := by
  refine inStep_look_bind (fun _ _ alike => existing_alike alike clears isTypeName whole)
    fun files other alike => InStep.forM fun path member => ?_
  exact inStep_ignoreMissing (inStep_removeFile
    (shows_of_mem_existing alike clears isTypeName whole member))

end Outputs

/-! ## Questions of a session -/

section Questions

variable {session : Session} {files other : FileSystem} {source : Path}
  (overlooks : toolchain.Disregards veil outputRoot classpath) (alike : veil.Alike files other)
include overlooks alike

namespace Session

theorem typeOf_alike (shows : veil.Shows source) :
    session.typeOf toolchain other source = session.typeOf toolchain files source := by
  rw [typeOf, typeOf, alike.pathExists shows, overlooks.declares _ _ _ alike shows]

theorem knownTypeOf_alike (shows : veil.Shows source) :
    session.knownTypeOf toolchain other source = session.knownTypeOf toolchain files source := by
  rw [knownTypeOf, knownTypeOf, typeOf_alike overlooks alike shows]

theorem impactOf_alike (shows : veil.Shows source) :
    session.impactOf toolchain other source = session.impactOf toolchain files source := by
  rw [impactOf, impactOf, typesAround, typesAround, alike.pathExists shows,
    overlooks.declares _ _ _ alike shows]

omit alike in
theorem isTypeName_of_typeOf (records : session.RecordsTypes) {name : String}
    (types : session.typeOf toolchain files source = .ok name) : IsTypeName name := by
  rw [typeOf] at types
  split at types
  next => exact overlooks.names _ _ _ types
  next =>
    split at types
    next recorded =>
      rw [← Except.ok.inj types]
      exact records _ _ recorded
    next => cases types

omit alike in
theorem isTypeName_of_knownTypeOf (records : session.RecordsTypes) {name : String}
    (types : session.knownTypeOf toolchain files source = .ok name) : IsTypeName name := by
  rw [knownTypeOf] at types
  split at types
  next recorded =>
    rw [← Except.ok.inj types]
    exact records _ _ recorded
  next => exact isTypeName_of_typeOf overlooks records types

theorem outputsOf_alike (records : session.RecordsTypes) (clears : veil.Clears outputRoot)
    (shows : veil.Shows source) : session.outputsOf toolchain other outputRoot source =
      session.outputsOf toolchain files outputRoot source := by
  rw [outputsOf, outputsOf, knownTypeOf_alike overlooks alike shows]
  cases types : session.knownTypeOf toolchain files source with
  | error error => rw [error_bind, error_bind]
  | ok name =>
      have isTypeName := isTypeName_of_knownTypeOf overlooks records types
      rw [ok_bind, ok_bind, Outputs.existing_alike alike clears isTypeName overlooks.whole]

theorem shows_of_mem_outputsOf (records : session.RecordsTypes) (clears : veil.Clears outputRoot)
    {outputs : List Path} (found : session.outputsOf toolchain files outputRoot source = .ok outputs)
    {path : Path} (member : path ∈ outputs) : veil.Shows path := by
  rw [outputsOf] at found
  obtain ⟨name, types, rest⟩ := bind_eq_ok.mp found
  have same : Outputs.existing files outputRoot name toolchain.outputExtension = outputs :=
    Except.ok.inj rest
  rw [← same] at member
  exact Outputs.shows_of_mem_existing alike clears (isTypeName_of_knownTypeOf overlooks records types)
    overlooks.whole member

end Session

namespace Build

variable {sources : SourceStates} {recompile : PathSet}
  (shown : veil.ShowsSources sources)
include shown

theorem recompileSet_alike :
    recompileSet session toolchain other sources = recompileSet session toolchain files sources := by
  rw [recompileSet, recompileSet, mapM_congr fun entry listed => ?_]
  obtain ⟨path, state⟩ := entry
  have shows : veil.Shows path := shown (path, state) listed
  cases state <;> simp only [reached, Session.impactOf_alike overlooks alike shows]

omit overlooks alike in
theorem shows_of_mem_recompileSet (knows : veil.Knows session)
    (computes : recompileSet session toolchain files sources = .ok recompile) :
    ∀ path ∈ recompile.toList, veil.Shows path := by
  intro path listed
  rcases (known_of_mem_recompileSet computes listed).1 with added | changed | ⟨name, recorded⟩
  · exact shown (path, .added) added
  · exact shown (path, .changed) changed
  · exact knows.sources name path recorded

omit overlooks alike in
theorem shows_of_mem_inState {states : List SourceState} {path : Path}
    (member : path ∈ sources.inState states) : veil.Shows path := by
  obtain ⟨state, -, listed⟩ := SourceStates.mem_inState.mp member
  exact shown (path, state) listed

end Build

end Questions

/-! ## Steps of a session -/

section Steps

variable {known : Session → Prop}

namespace Session

section CacheFile

variable (shows : veil.Shows cacheFile)
include shows

theorem load_alike {files other : FileSystem} (alike : veil.Alike files other) :
    load other cacheFile = load files cacheFile := by
  rw [load, load, alike.read shows]

theorem inStep_start_veiled : InStep veil.WorldsAlike (start cacheFile) := by
  rw [start]
  refine InStep.bind (inStep_inspectFiles fun _ _ alike => alike.pathExists shows) fun present => ?_
  split
  · refine InStep.bind (inStep_inspectFiles fun _ _ => load_alike shows) fun loaded => ?_
    split
    · exact InStep.pure _
    · exact InStep.bind (inStep_tell _) fun _ =>
        InStep.bind (inStep_tryChangeFiles (inStep_removeFile shows)) fun _ => InStep.pure _
  · exact InStep.pure _

theorem inStep_persist (showsTemporary : veil.Shows (cacheFile.withExtension "tmp")) :
    InStep (veil.SessionsAlike known) (persist cacheFile) := by
  rw [persist]
  refine inStep_current_bind fun session _ => inStep_outside (inStep_changeFiles ?_)
  have replaces := inStep_replaceFile shows showsTemporary session.toCacheData.encode
  cases above : cacheFile.parent? with
  | none => exact replaces
  | some parent =>
      have climbs := inStep_makeDirectories (shows.of_prefix (Path.location_parent?_leads above))
      exact InStep.bind climbs fun _ => replaces

theorem reset_alike {opened other : OpenSession} (alike : veil.SessionsAlike known opened other) :
    EndRelated (veil.SessionsAlike veil.Knows) (reset cacheFile opened) (reset cacheFile other) := by
  rw [reset]
  refine EndAlike.bind_of_ok rfl rfl ?_
  refine inStep_outside (inStep_changeFiles (inStep_ignoreMissing (inStep_removeFile shows))) _ _ ?_
  exact ⟨alike.worlds, congrArg forgetAll alike.session, knows_forgetAll _⟩

end CacheFile

variable (overlooks : toolchain.Disregards veil outputRoot classpath)
  (clears : veil.Clears outputRoot)
include overlooks clears

theorem inStep_forgetClass {name : String} (isTypeName : IsTypeName name) (source : Path) :
    InStep (veil.SessionsAlike veil.Knows) (forgetClass toolchain outputRoot name source) := by
  rw [forgetClass]
  refine inStep_current_bind fun session knows => ?_
  split
  · refine InStep.bind (inStep_outside (inStep_changeFiles ?_)) fun _ =>
      inStep_revise fun _ knows => knows.withoutClass name
    exact Outputs.inStep_delete clears isTypeName overlooks.whole
  · exact InStep.pure ()

theorem inStep_forgetPrevious (batch : List Declaration) (declaration : Declaration) :
    InStep (veil.SessionsAlike veil.Knows)
      (forgetPrevious toolchain outputRoot batch declaration) := by
  rw [forgetPrevious]
  refine inStep_current_bind fun session knows => ?_
  split
  next => exact InStep.pure ()
  next previous recorded =>
    split
    · exact inStep_forgetClass overlooks clears (knows.records _ _ recorded) _
    · exact InStep.pure ()

theorem inStep_removeSources (sources : List Path) :
    InStep (veil.SessionsAlike veil.Knows) (removeSources toolchain outputRoot sources) := by
  refine InStep.forM fun source _ => ?_
  rw [removeSource]
  refine inStep_current_bind fun session knows => ?_
  split
  next => exact InStep.pure ()
  next name recorded =>
    exact InStep.bind (inStep_revise fun _ knows => knows.withoutSource source) fun _ =>
      inStep_forgetClass overlooks clears (knows.records _ _ recorded) source

omit clears in
theorem inStep_refreshOne_veiled {declaration : Declaration} (isTypeName : IsTypeName declaration.name) :
    InStep (veil.SessionsAlike fun _ => True) (refreshOne toolchain outputRoot declaration) := by
  rw [refreshOne]
  refine InStep.bind (inStep_ask fun _ _ _ _ alike => ?_) fun abi => inStep_revise fun _ => id
  exact overlooks.surfaces _ _ _ alike isTypeName

theorem refresh_veiled {sources : List Path} (shown : ∀ source ∈ sources, veil.Shows source)
    {opened other : OpenSession} (alike : veil.SessionsAlike veil.Knows opened other) :
    EndRelated (veil.SessionsAlike fun _ => True) (refresh toolchain outputRoot sources opened)
      (refresh toolchain outputRoot sources other) := by
  have looks : InStep (veil.SessionsAlike veil.Knows) (sources.mapM fun source => do
      let name ← SessionAction.consult fun _ files => toolchain.typeDeclaredBy files source
      pure (Declaration.mk source name)) :=
    InStep.mapM fun source member =>
      InStep.bind (inStep_ask fun _ _ _ _ alike => overlooks.declares _ _ _ alike (shown _ member))
        fun _ => InStep.pure _
  rw [refresh]
  refine EndRelated.bind SessionsAlike.weaken (looks _ _ alike) fun batch next next' returns alike => ?_
  obtain ⟨-, -, declared⟩ := (ends_declarations toolchain sources opened).of_ok returns
  have forgets := InStep.forM fun declaration (_ : declaration ∈ batch) =>
    inStep_forgetPrevious overlooks clears batch declaration
  refine EndRelated.bind SessionsAlike.weaken (forgets _ _ alike) fun _ last last' _ alike => ?_
  refine InStep.forM (fun declaration member => ?_) _ _ (SessionsAlike.weaken _ _ alike)
  exact inStep_refreshOne_veiled overlooks (overlooks.names _ _ _ (declared _ member))

end Session

namespace Build

variable (overlooks : toolchain.Disregards veil request.outputRoot request.classpath)
  (clears : veil.Clears request.outputRoot) (shows : veil.Shows request.cacheFile)
  (showsTemporary : veil.Shows (request.cacheFile.withExtension "tmp"))
include overlooks

theorem inStep_compileAny {precompiled sources : PathSet}
    (shownPrecompiled : ∀ path ∈ precompiled.toList, veil.Shows path)
    (shown : ∀ path ∈ sources.toList, veil.Shows path) :
    InStep veil.WorldsAlike (compileAny toolchain request precompiled sources) := by
  rw [compileAny]
  split
  · exact InStep.pure 0
  · exact overlooks.compiles precompiled sources shownPrecompiled shown

include clears shows showsTemporary

theorem inStep_commitFull {sources : PathSet} (shown : ∀ path ∈ sources.toList, veil.Shows path) :
    InStep (veil.SessionsAlike fun _ => True) (commitFull toolchain request sources) := by
  intro opened other alike
  rw [commitFull]
  refine EndRelated.bind SessionsAlike.weaken (Session.reset_alike shows alike)
    fun _ next next' _ alike => ?_
  refine EndRelated.bind (fun _ _ => id) (Session.refresh_veiled overlooks clears shown alike)
    fun _ last last' _ alike => ?_
  exact Session.inStep_persist shows showsTemporary _ _ alike

variable (shown : veil.ShowsSources request.sources)

include shown in
theorem inStep_full : InStep (veil.SessionsAlike fun _ => True) (full toolchain request) := by
  have present : ∀ path ∈ (PathSet.ofList request.sources.present).toList, veil.Shows path :=
    fun path listed => shows_of_mem_inState shown (PathSet.mem_of_mem_toList_ofList listed)
  have none : ∀ path ∈ (∅ : PathSet).toList, veil.Shows path := nofun
  rw [full]
  refine InStep.bind (inStep_outside (inStep_changeFiles (inStep_recreateDirectory clears))) fun _ => ?_
  refine InStep.bind (inStep_outside (inStep_compileAny overlooks none present)) fun exitCode => ?_
  dsimp only
  split
  · exact InStep.bind (inStep_commitFull overlooks clears shows showsTemporary present)
      fun _ => InStep.pure _
  · exact InStep.bind (inStep_outside (inStep_tell _)) fun _ => InStep.pure _

theorem commit_veiled {recompile : PathSet} (shownRecompile : ∀ path ∈ recompile.toList, veil.Shows path)
    {opened other : OpenSession} (alike : veil.SessionsAlike veil.Knows opened other) :
    EndRelated (veil.SessionsAlike fun _ => True) (commit toolchain request recompile opened)
      (commit toolchain request recompile other) := by
  have asks : InStep (veil.SessionsAlike veil.Knows) (SessionAction.consult fun session files =>
      redeclared session toolchain files (request.sources.inState [.removed]) recompile) := by
    refine inStep_ask fun session files other _ alike => ?_
    rw [redeclared, redeclared]
    split
    · rfl
    · exact mapM_congr fun path listed =>
        Session.typeOf_alike overlooks alike (shownRecompile path listed)
  rw [commit]
  refine EndRelated.bind SessionsAlike.weaken (asks _ _ alike) fun declared next next' _ alike => ?_
  refine EndAlike.bind_of_ok rfl rfl ?_
  rw [alike.session]
  refine EndRelated.bind SessionsAlike.weaken
    (Session.inStep_removeSources overlooks clears _ _ _ alike) fun _ left left' _ alike => ?_
  refine EndRelated.bind (fun _ _ => id)
    (Session.refresh_veiled overlooks clears shownRecompile alike) fun _ last last' _ alike => ?_
  exact Session.inStep_persist shows showsTemporary _ _ alike

omit shows showsTemporary in
include shown in
theorem plan_alike {session : Session} {files other : FileSystem} (knows : veil.Knows session)
    (alike : veil.Alike files other) :
    plan session toolchain other request = plan session toolchain files request := by
  rw [plan, plan, recompileSet_alike overlooks alike shown]
  cases recompileSet session toolchain files request.sources with
  | error error => rw [error_bind, error_bind]
  | ok recompile =>
      rw [ok_bind, ok_bind]
      dsimp only
      rw [mapM_congr fun path kept => ?_]
      have present := (List.mem_filter.mp kept).1
      exact Session.outputsOf_alike overlooks alike knows.records clears
        (shows_of_mem_inState shown present)

include shown

theorem incremental_veiled {opened other : OpenSession}
    (alike : veil.SessionsAlike veil.Knows opened other) :
    EndRelated (veil.SessionsAlike fun _ => True) (incremental toolchain request opened)
      (incremental toolchain request other) := by
  have knows := alike.known
  have asks : InStep (veil.SessionsAlike veil.Knows) (SessionAction.consult fun session files =>
      plan session toolchain files request) :=
    inStep_ask fun _ _ _ knows alike => plan_alike overlooks clears shown knows alike
  rw [incremental]
  refine EndRelated.bind SessionsAlike.weaken (asks _ _ alike) fun found next next' returns alike' => ?_
  obtain ⟨outputs, plans⟩ := exists_plans (eq_ok_of_consult returns)
  have recompiled := shows_of_mem_recompileSet shown knows plans.computes
  have kept : ∀ path ∈ found.precompiled.toList, veil.Shows path := by
    intro path listed
    rw [plans.precompiled] at listed
    obtain ⟨listed', inside, member⟩ := List.mem_flatten.mp (PathSet.mem_of_mem_toList_ofList listed)
    obtain ⟨source, -, outputs⟩ := exists_of_mem_results plans.finds inside
    exact Session.shows_of_mem_outputsOf overlooks alike.worlds.files knows.records clears outputs
      member
  have compiles := inStep_compileAny overlooks kept recompiled
  refine EndRelated.bind SessionsAlike.weaken (inStep_outside compiles _ _ alike')
    fun exitCode last last' _ alike => ?_
  dsimp only
  split
  · exact EndRelated.bind (fun _ _ => id)
      (commit_veiled overlooks clears shows showsTemporary recompiled alike)
      fun _ _ _ _ alike => .returned alike
  · exact EndRelated.bind SessionsAlike.weaken (inStep_outside (inStep_tell _) _ _ alike)
      fun _ _ _ _ alike => .returned (SessionsAlike.weaken _ _ alike)

theorem choose_veiled {opened other : OpenSession}
    (alike : veil.SessionsAlike veil.Knows opened other) :
    EndRelated (veil.SessionsAlike fun _ => True) (choose toolchain request opened)
      (choose toolchain request other) := by
  have builds := inStep_full overlooks clears shows showsTemporary shown
  have less := SessionsAlike.weaken _ _ alike
  rw [choose]
  split
  · exact builds _ _ less
  refine EndAlike.bind_of_ok rfl rfl ?_
  rw [alike.session]
  split
  · exact InStep.bind (inStep_outside (inStep_tell _)) (fun _ => builds) _ _ less
  split
  · exact .returned less
  · exact incremental_veiled overlooks clears shows showsTemporary shown alike

theorem compileSources_veiled {world other : World}
    (recorded : ∀ session, Session.load world.files request.cacheFile = .ok session →
      veil.Knows session) (alike : veil.WorldsAlike world other) :
    EndRelated veil.WorldsAlike (compileSources toolchain request world)
      (compileSources toolchain request other) := by
  have starts : Ends (Session.start request.cacheFile) world _ _ :=
    Session.ends_start trivial (ends_true _ _)
  rw [compileSources]
  refine EndRelated.bind (fun _ _ => id) (Session.inStep_start_veiled shows _ _ alike)
    fun session next next' returns alike => ?_
  have knows : veil.Knows session := by
    rcases starts.of_ok returns with ⟨loads, -⟩ | ⟨rfl, -⟩
    · exact recorded session loads
    · exact knows_empty
  exact run_alike (choose_veiled overlooks clears shows showsTemporary shown ⟨alike, rfl, knows⟩)

theorem inStep_compileSources (changed : request.classpathChanged = true) :
    InStep veil.WorldsAlike (compileSources toolchain request) := by
  rw [compileSources]
  refine InStep.bind (Session.inStep_start_veiled shows) fun session world other alike => ?_
  rw [choose, if_pos changed]
  exact run_alike (inStep_full overlooks clears shows showsTemporary shown _ _
    ⟨alike, rfl, trivial⟩)

end Build

end Steps

end AbiBuild
