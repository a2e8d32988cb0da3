import AbiBuild.Proofs.Build.Copying
import AbiBuild.Proofs.Changes.CacheLayout
import AbiBuild.Proofs.Session.Reopen

/-!
# When the cache file changes

A build puts its session into the cache file at the very end and in one step.  Until then the old
file stays, except that a build of everything removes it once the compiler has succeeded.
-/

namespace AbiBuild

open Files FileSystem SessionAction

variable {toolchain : Toolchain} {request : BuildRequest} {session : Session} {world : World}
  {cacheFile : Path}

/-- The file is named like the files of sessions, in a directory with a plain path. -/
def IsCacheFile (cacheFile : Path) : Prop :=
  ∃ (directory : Path) (stem : String), directory.Plain ∧ IsName stem ∧
    cacheFile = directory.join (stem ++ "." ++ "bin")

theorem IsCacheFile.plain (isCacheFile : IsCacheFile cacheFile) : cacheFile.Plain := by
  obtain ⟨directory, stem, plain, isName, rfl⟩ := isCacheFile
  exact plain.join (isName.withExtension (by decide))

/-- The compiler, when it puts units below the output directory, leaves alone what is at the path. -/
def Toolchain.LeavesAlone (toolchain : Toolchain) (outputRoot path : Path) : Prop :=
  ∀ compile : CompileRequest, compile.outputRoot = outputRoot →
    Moves (OnFiles (StaysAt path)) (toolchain.compile compile)

theorem Toolchain.Serves.leavesAlone {language : Language} {outputRoot path : Path}
    {untouched : List Path} (serves : toolchain.Serves language outputRoot untouched)
    (member : path ∈ untouched) (plain : path.Plain) : toolchain.LeavesAlone outputRoot path := by
  intro compile output world
  by_cases wellFormed : world.files.WellFormed
  · exact (serves.compiles compile world output wellFormed).imp
      (fun _ _ served => (served.1 path member).staysAt (.refl plain))
      fun _ _ keeps => (keeps path member).staysAt (.refl plain)
  · exact (ends_true _ _).imp (fun _ _ _ inOrder => absurd inOrder wellFormed)
      fun _ _ _ inOrder => absurd inOrder wellFormed

/-! ## Opening -/

namespace Session

/-- Opening the cache file gives this session and changes nothing. -/
def Opens (cacheFile : Path) (session : Session) (world : World) : Prop :=
  start cacheFile world = .ok session world

theorem load_eq_ok {files : FileSystem} (loads : load files cacheFile = .ok session) :
    ∃ octets, files.read cacheFile = .ok octets ∧
      ∀ after : FileSystem, after.read cacheFile = .ok octets →
        load after cacheFile = .ok session := by
  cases reads : files.read cacheFile with
  | error fault =>
      rw [load, reads] at loads
      cases loads
  | ok octets =>
      refine ⟨octets, rfl, fun after reads' => ?_⟩
      rwa [load, reads, ← reads'] at loads

theorem opens_of_load (loads : load world.files cacheFile = .ok session) :
    Opens cacheFile session world := by
  obtain ⟨octets, reads, -⟩ := load_eq_ok loads
  exact start_of_load (pathExists_of_read reads) loads

theorem opens_empty (absent : world.files.pathExists cacheFile = false) :
    Opens cacheFile .empty world := by
  simp only [Opens, start, bind, EStateM.bind, BuildAction.inspect, absent]
  rfl

theorem exists_opens (initial : world.files.pathExists cacheFile = false ∨
      ∃ stored, load world.files cacheFile = .ok stored)
    (wellFormed : world.files.WellFormed) (plain : cacheFile.Plain) :
    ∃ session, Opens cacheFile session world ∧
      ∀ next : World, SameAt cacheFile world.files next.files → Opens cacheFile session next := by
  rcases initial with absent | ⟨session, loads⟩
  · refine ⟨.empty, opens_empty absent, fun next same => opens_empty ?_⟩
    rw [Bool.eq_false_iff] at absent ⊢
    intro present
    exact absent ((same.pathExists wellFormed plain).mp present)
  · obtain ⟨octets, reads, loads'⟩ := load_eq_ok loads
    exact ⟨session, opens_of_load loads, fun next same =>
      opens_of_load (loads' next.files ((same.read_eq_ok wellFormed plain).mpr reads))⟩

end Session

/-! ## Steps of the session -/

namespace Session

/-- The file holds the session now, on the host that there was before. -/
def IsStored (cacheFile : Path) (before : FileSystem) (opened : OpenSession) : Prop :=
  before.WellFormed → opened.world.files.host = before.host ∧ opened.world.files.WellFormed ∧
    opened.world.files.Holds cacheFile opened.session.toCacheData.encode

theorem IsStored.of_staysOrGoes {first second : FileSystem} {opened : OpenSession}
    (cleared : StaysOrGoes cacheFile first second) (stored : IsStored cacheFile second opened) :
    IsStored cacheFile first opened := by
  intro wellFormed
  rcases cleared wellFormed with same | gone
  · exact ⟨(stored same.wellFormed).1.trans same.host, (stored same.wellFormed).2⟩
  · exact ⟨(stored gone.wellFormed).1.trans gone.host, (stored gone.wellFormed).2⟩

theorem IsStored.of_staysAt {first second : FileSystem} {opened : OpenSession}
    (stays : StaysAt cacheFile first second) (stored : IsStored cacheFile second opened) :
    IsStored cacheFile first opened :=
  stored.of_staysOrGoes stays.staysOrGoes

theorem IsStored.read {before : FileSystem} {opened : OpenSession}
    (stored : IsStored cacheFile before opened) (wellFormed : before.WellFormed)
    (plain : cacheFile.Plain)
    (readable : before.host.unreadable[before.placeFor cacheFile]? = none) :
    opened.world.files.read cacheFile = .ok opened.session.toCacheData.encode := by
  obtain ⟨host, inOrder, holds⟩ := stored wellFormed
  refine (inOrder.read_eq_ok_iff_holds plain).mpr ⟨holds, ?_⟩
  rwa [placeFor_congr host, host]

/-- A session that cannot be stored leaves the cache file alone: until the end only the temporary
file beside it is written. -/
theorem ends_persist_at (isCacheFile : IsCacheFile cacheFile) (opened : OpenSession) :
    Ends (persist cacheFile) opened (fun _ next => IsStored cacheFile opened.world.files next)
      (fun _ next => StaysAt cacheFile opened.world.files next.world.files) := by
  obtain ⟨directory, stem, plain, isName, rfl⟩ := isCacheFile
  have temporary : IsName (stem ++ "." ++ "tmp") := isName.withExtension (by decide)
  have stored : IsName (stem ++ "." ++ "bin") := isName.withExtension (by decide)
  have different : stem ++ "." ++ "tmp" ≠ stem ++ "." ++ "bin" := by
    intro same
    have ends := congrArg (fun text => text.toList.getLast?) same
    simp at ends
  have near : Near (directory.join (stem ++ "." ++ "tmp")) directory :=
    ⟨plain, (plain.isAbsolute_join temporary.whole).symm,
      .inr (by rw [plain.steps_join temporary.whole]; exact List.prefix_append _ _)⟩
  have elsewhere : ∀ next, Within (directory.join (stem ++ "." ++ "tmp")) opened.world.files next →
      StaysAt (directory.join (stem ++ "." ++ "bin")) opened.world.files next :=
    fun next within => (within.keeps (apart_join plain temporary.whole stored.whole
      different)).staysAt (.refl (plain.join stored))
  have replaces : Ends (persist (directory.join (stem ++ "." ++ "bin"))) opened
      (fun _ next => next.world.files.host = opened.world.files.host ∧
        (opened.world.files.WellFormed → next.world.files.WellFormed) ∧
        next.world.files.Holds (directory.join (stem ++ "." ++ "bin"))
          opened.session.toCacheData.encode)
      (fun _ next => StaysAt (directory.join (stem ++ "." ++ "bin")) opened.world.files
        next.world.files) := by
    simp only [persist, store, ends_bind, ends_current, ends_outside, ends_change,
      plain.parent?_join stored]
    refine (moves_makeDirectories near opened.world.files).imp ?_ fun _ => elsewhere
    intro _ middle within
    refine (ends_replaceFile_join plain isName _ middle).imp ?_ ?_
    · rintro _ next ⟨touches, holds⟩
      exact ⟨touches.host.trans within.host, touches.wellFormed ∘ within.wellFormed, holds⟩
    · intro _ next touches
      exact elsewhere next (Accumulates.trans within
        (touches.within (by simpa using (Below.refl (plain.join temporary)).near)))
  refine (replaces.and (ends_persist _ opened)).imp ?_ fun _ _ failed => failed.1
  rintro _ next ⟨⟨host, inOrder, holds⟩, same⟩ wellFormed
  rw [same]
  exact ⟨host, inOrder wellFormed, holds⟩

theorem ends_reset_at (isCacheFile : IsCacheFile cacheFile) (opened : OpenSession) :
    Ends (reset cacheFile) opened
      (fun _ next => StaysOrGoes cacheFile opened.world.files next.world.files)
      (fun _ next => StaysAt cacheFile opened.world.files next.world.files) := by
  simp only [reset, ends_bind, ends_revise, ends_outside, ends_change]
  exact ends_removeFile_at isCacheFile.plain opened.world.files

section Outputs

variable {related : FileSystem → FileSystem → Prop} [Accumulates related] {outputRoot : Path}
  (deletes : ∀ name, Moves related (Outputs.delete outputRoot name toolchain.outputExtension))
include deletes

theorem moves_forgetClass_files (name : String) (source : Path) :
    Moves (OnOpenFiles related) (forgetClass toolchain outputRoot name source) := by
  refine Moves.bind moves_current fun session => ?_
  split
  · exact Moves.bind (moves_outside (moves_change (deletes name))) fun _ => moves_revise _
  · exact Moves.pure _

theorem moves_removeSources_files (sources : List Path) :
    Moves (OnOpenFiles related) (removeSources toolchain outputRoot sources) := by
  refine Moves.forM fun source _ => Moves.bind moves_current fun session => ?_
  split
  · exact Moves.pure _
  · exact Moves.bind (moves_revise _) fun _ => moves_forgetClass_files deletes _ _

theorem moves_refresh_files (sources : List Path) :
    Moves (OnOpenFiles related) (refresh toolchain outputRoot sources) := by
  have declares : Moves (OnOpenFiles related) (sources.mapM fun source => do
      let name ← SessionAction.consult fun _ files => toolchain.typeDeclaredBy files source
      pure (Declaration.mk source name)) := by
    intro opened
    refine (ends_declarations toolchain sources opened).imp ?_ ?_
    · rintro _ next ⟨rfl, -⟩
      exact Accumulates.refl next.world.files
    · rintro _ next rfl
      exact Accumulates.refl next.world.files
  refine Moves.bind declares fun batch => Moves.bind (Moves.forM ?_) fun _ => Moves.forM ?_
  · intro declaration _
    refine Moves.bind moves_current fun session => ?_
    split
    · exact Moves.pure _
    · split
      · exact moves_forgetClass_files deletes _ _
      · exact Moves.pure _
  · exact fun declaration _ => Moves.bind (moves_look _) fun abi => moves_revise _

end Outputs

end Session

/-! ## Committing -/

namespace Build

section Commit

variable (isCacheFile : IsCacheFile request.cacheFile)
  (own : Outputs.OwnExtension toolchain.outputExtension)
include isCacheFile own

theorem moves_delete_at (name : String) : Moves (StaysAt request.cacheFile)
    (Outputs.delete request.outputRoot name toolchain.outputExtension) := by
  obtain ⟨directory, stem, plain, isName, named⟩ := isCacheFile
  rw [named]
  exact own.moves_delete plain isName request.outputRoot name

theorem ends_takeIn_at (sources : List Path) (opened : OpenSession) :
    Ends (do
        Session.refresh toolchain request.outputRoot sources
        Session.persist request.cacheFile) opened
      (fun _ next => Session.IsStored request.cacheFile opened.world.files next)
      (fun _ next => StaysAt request.cacheFile opened.world.files next.world.files) := by
  rw [ends_bind]
  refine (Session.moves_refresh_files (moves_delete_at isCacheFile own) sources opened).imp ?_
    fun _ _ stays => stays
  intro _ middle stays
  exact (Session.ends_persist_at isCacheFile middle).imp (fun _ _ => .of_staysAt stays)
    fun _ _ => Accumulates.trans stays

theorem ends_commit_at (set : PathSet) (opened : OpenSession) :
    Ends (commit toolchain request set) opened
      (fun _ next => Session.IsStored request.cacheFile opened.world.files next)
      (fun _ next => StaysAt request.cacheFile opened.world.files next.world.files) := by
  rw [commit, ends_bind, ends_look]
  split
  next =>
    rw [ends_bind, ends_current, ends_bind]
    refine (Session.moves_removeSources_files (moves_delete_at isCacheFile own) _ opened).imp ?_
      fun _ _ stays => stays
    intro _ middle stays
    exact (ends_takeIn_at isCacheFile own _ middle).imp (fun _ _ => .of_staysAt stays)
      fun _ _ => Accumulates.trans stays
  next => exact Accumulates.refl opened.world.files

theorem ends_commitFull_at (sources : PathSet) (opened : OpenSession) :
    Ends (commitFull toolchain request sources) opened
      (fun _ next => Session.IsStored request.cacheFile opened.world.files next)
      (fun _ next => StaysOrGoes request.cacheFile opened.world.files next.world.files) := by
  rw [commitFull, ends_bind]
  refine (Session.ends_reset_at isCacheFile opened).imp ?_ fun _ _ stays => stays.staysOrGoes
  intro _ middle cleared
  exact (ends_takeIn_at isCacheFile own _ middle).imp (fun _ _ => .of_staysOrGoes cleared)
    fun _ _ stays => Accumulates.trans cleared stays.staysOrGoes

end Commit

/-! ## Building -/

def compileAll (toolchain : Toolchain) (request : BuildRequest) : BuildAction Int := do
  BuildAction.change (FileSystem.recreateDirectory request.outputRoot)
  compileAny toolchain request ∅ (PathSet.ofList request.sources.present)

theorem outside_bind {α β : Type} (action : BuildAction α) (next : α → BuildAction β) :
    outside (action >>= next) = outside action >>= fun value => outside (next value) := by
  funext opened
  simp only [outside, bind, EStateM.bind]
  cases action opened.world <;> rfl

theorem full_eq : full toolchain request = (do
    let exitCode ← outside (compileAll toolchain request)
    if exitCode = 0 then commitFull toolchain request (PathSet.ofList request.sources.present)
    else outside (BuildAction.notify (.compilerFailed exitCode))
    pure ⟨.full, exitCode, PathSet.ofList request.sources.present⟩) := by
  rw [full, compileAll, outside_bind, bind_assoc]

structure ReplacesAtOnce (cacheFile : Path) (before : FileSystem) (report : BuildReport)
    (after : OpenSession) : Prop where
  kept : report.mode = .unchanged ∨ report.exitCode ≠ 0 →
    StaysAt cacheFile before after.world.files
  stored : report.mode ≠ .unchanged → report.exitCode = 0 →
    Session.IsStored cacheFile before after

/-- Does a build of everything succeed in compiling? -/
def CompilesAll (toolchain : Toolchain) (request : BuildRequest) (world : World) : Prop :=
  ∃ compiled, compileAll toolchain request world = .ok 0 compiled

section Build

variable (isCacheFile : IsCacheFile request.cacheFile)
  (own : Outputs.OwnExtension toolchain.outputExtension)
  (alone : toolchain.LeavesAlone request.outputRoot request.cacheFile)

include alone in
theorem moves_compileAny_at (precompiled sources : PathSet) :
    Moves (OnFiles (StaysAt request.cacheFile))
      (compileAny toolchain request precompiled sources) := by
  rw [compileAny]
  split
  · exact Moves.pure _
  · exact alone _ rfl

include alone in
theorem ends_compileAll_at (isCacheFile : IsCacheFile request.cacheFile)
    (plain : request.outputRoot.Plain)
    (apart : Apart world.files request.outputRoot request.cacheFile) :
    Ends (compileAll toolchain request) world
      (fun _ next => StaysAt request.cacheFile world.files next.files)
      (fun _ next => StaysAt request.cacheFile world.files next.files) := by
  have elsewhere : ∀ next, Within request.outputRoot world.files next →
      StaysAt request.cacheFile world.files next :=
    fun next within => (within.keeps apart).staysAt (.refl isCacheFile.plain)
  rw [compileAll, ends_bind, ends_change]
  refine (moves_recreateDirectory plain world.files).imp ?_ fun _ => elsewhere
  intro _ emptied within
  exact (moves_compileAny_at alone _ _ _).imp
    (fun _ _ => Accumulates.trans (elsewhere emptied within))
    fun _ _ => Accumulates.trans (elsewhere emptied within)

include isCacheFile own

theorem ends_full_at (opened : OpenSession)
    (compiles : Ends (compileAll toolchain request) opened.world
      (fun _ next => StaysAt request.cacheFile opened.world.files next.files)
      (fun _ next => StaysAt request.cacheFile opened.world.files next.files)) :
    Ends (full toolchain request) opened
      (fun report next => ReplacesAtOnce request.cacheFile opened.world.files report next)
      (fun _ next => StaysAt request.cacheFile opened.world.files next.world.files ∨
        CompilesAll toolchain request opened.world ∧
          StaysOrGoes request.cacheFile opened.world.files next.world.files) := by
  rw [full_eq]
  refine ends_compiled (compiles.result.imp (fun _ _ => id) fun _ _ failed => .inl failed.2) ?_ ?_
  · rintro next - ⟨runs, stays⟩
    refine (ends_commitFull_at isCacheFile own _ _).imp ?_ ?_
    · exact fun _ _ stored =>
        ⟨fun kept => kept.elim nofun (absurd rfl), fun _ _ => .of_staysAt stays stored⟩
    · exact fun _ _ cleared =>
        .inr ⟨⟨next.world, runs⟩, Accumulates.trans stays.staysOrGoes cleared⟩
  · exact fun _ _ _ bad compiled => ⟨fun _ => compiled.2, fun _ good => absurd good bad⟩

include alone

theorem ends_incremental_at (opened : OpenSession) :
    Ends (incremental toolchain request) opened
      (fun report next => ReplacesAtOnce request.cacheFile opened.world.files report next)
      (fun _ next => StaysAt request.cacheFile opened.world.files next.world.files) := by
  rw [incremental, ends_bind, ends_look]
  split
  next found _ =>
    refine ends_compiled ((moves_compileAny_at alone found.precompiled found.recompile
      opened.world).imp (fun _ _ => id) fun _ _ => id) ?_ ?_
    · intro last _ stays
      refine (ends_commit_at isCacheFile own _ _).imp ?_ fun _ _ => Accumulates.trans stays
      exact fun _ _ stored =>
        ⟨fun kept => kept.elim nofun (absurd rfl), fun _ _ => .of_staysAt stays stored⟩
    · exact fun _ _ _ bad stays => ⟨fun _ => stays, fun _ good => absurd good bad⟩
  next => exact Accumulates.refl opened.world.files

/-- Is everything compiled? -/
def TakesFull (session : Session) (request : BuildRequest) : Prop :=
  request.classpathChanged ∨ lacksGraph session request.sources

/-- Where a build of everything begins; the user has been told when the graph is what lacks. -/
def begun (request : BuildRequest) (world : World) : World :=
  if request.classpathChanged then world
  else { world with notices := world.notices ++ [.noCache request.cacheFile] }

theorem ends_choose_at (plain : request.outputRoot.Plain)
    (apart : Apart world.files request.outputRoot request.cacheFile) :
    Ends (choose toolchain request) ⟨session, world⟩
      (fun report next => ReplacesAtOnce request.cacheFile world.files report next)
      (fun _ next => StaysAt request.cacheFile world.files next.world.files ∨
        (TakesFull session request ∧ CompilesAll toolchain request (begun request world)) ∧
          StaysOrGoes request.cacheFile world.files next.world.files) := by
  have everything : ∀ first : World, first.files = world.files → first = begun request world →
      TakesFull session request → Ends (full toolchain request) ⟨session, first⟩
        (fun report next => ReplacesAtOnce request.cacheFile world.files report next)
        (fun _ next => StaysAt request.cacheFile world.files next.world.files ∨
          (TakesFull session request ∧ CompilesAll toolchain request (begun request world)) ∧
            StaysOrGoes request.cacheFile world.files next.world.files) := by
    intro first same begins takes
    rw [← same] at apart ⊢
    rw [← begins]
    refine (ends_full_at isCacheFile own ⟨session, first⟩
      (ends_compileAll_at alone isCacheFile plain apart)).imp (fun _ _ replaces => replaces) ?_
    exact fun _ _ failed => failed.imp id fun ⟨compiles, cleared⟩ => ⟨⟨takes, compiles⟩, cleared⟩
  rw [choose, ends_ite]
  split
  next changed => exact everything world rfl (if_pos changed).symm (.inl changed)
  next unchanged =>
    rw [ends_bind, ends_current, ends_ite]
    split
    next lacks =>
      rw [ends_bind, ends_outside, ends_notify]
      exact everything { world with notices := _ } rfl (if_neg unchanged).symm (.inr lacks)
    next =>
      rw [ends_ite]
      split
      next =>
        exact ⟨fun _ => Accumulates.refl world.files, fun changed => absurd rfl changed⟩
      next =>
        exact (ends_incremental_at isCacheFile own alone _).imp (fun _ _ replaces => replaces)
          fun _ _ stays => .inl stays

end Build

/-! ## What is opened later -/

/-- After a build that returned, the cache file is the old one or opens as what is in memory. -/
structure WholeAfterReturn (cacheFile : Path) (session : Session) (before : FileSystem)
    (report : BuildReport) (after : OpenSession) : Prop where
  kept : report.mode = .unchanged ∨ report.exitCode ≠ 0 →
    SameAt cacheFile before after.world.files
  stored : report.mode ≠ .unchanged → report.exitCode = 0 → after.session.Storable →
    Session.Opens cacheFile (.ofStored after.session.classToSource after.session.graph) after.world
  whole : after.session.Storable → Session.Opens cacheFile session after.world ∨
    Session.Opens cacheFile (.ofStored after.session.classToSource after.session.graph) after.world

/-- After a build that failed, the cache file is the old one, or it is gone when everything had been
compiled. -/
structure WholeAfterFailure (cacheFile : Path) (session : Session) (before : FileSystem)
    (compiled : Prop) (after : World) : Prop where
  kept : ¬compiled → SameAt cacheFile before after.files
  removed : SameAt cacheFile before after.files ∨ GoneAt cacheFile before after.files
  whole : Session.Opens cacheFile session after ∨ Session.Opens cacheFile .empty after

/-- A later build opens the session before, the session after or none, whichever step fails. -/
theorem cache_file_changes_at_once (wellFormed : world.files.WellFormed)
    (isCacheFile : IsCacheFile request.cacheFile)
    (initial : world.files.pathExists request.cacheFile = false ∨
      ∃ stored, Session.load world.files request.cacheFile = .ok stored)
    (readable : world.files.host.unreadable[world.files.placeFor request.cacheFile]? = none)
    (plain : request.outputRoot.Plain)
    (apart : Apart world.files request.outputRoot request.cacheFile)
    (own : Outputs.OwnExtension toolchain.outputExtension)
    (alone : toolchain.LeavesAlone request.outputRoot request.cacheFile) :
    ∃ session, Session.Opens request.cacheFile session world ∧
      compileSources toolchain request world = run session (choose toolchain request) world ∧
      Ends (choose toolchain request) ⟨session, world⟩
        (fun report after =>
          WholeAfterReturn request.cacheFile session world.files report after)
        (fun _ after => WholeAfterFailure request.cacheFile session world.files
          (TakesFull session request ∧ CompilesAll toolchain request (begun request world))
          after.world) := by
  obtain ⟨session, opens, reopens⟩ := Session.exists_opens initial wellFormed isCacheFile.plain
  refine ⟨session, opens, ?_, ?_⟩
  · rw [Session.Opens] at opens
    simp only [compileSources, bind, EStateM.bind, opens]
  refine (ends_choose_at isCacheFile own alone plain apart).imp ?_ ?_
  · intro report after replaces
    have stored : report.mode ≠ .unchanged → report.exitCode = 0 → after.session.Storable →
        Session.Opens request.cacheFile
          (.ofStored after.session.classToSource after.session.graph) after.world :=
      fun changed good storable =>
        Session.opens_of_load (Session.load_of_read storable
          ((replaces.stored changed good).read wellFormed isCacheFile.plain readable))
    have kept := fun quiet => replaces.kept quiet wellFormed
    refine ⟨kept, stored, fun storable => ?_⟩
    by_cases changed : report.mode = .unchanged
    · exact .inl (reopens _ (kept (.inl changed)))
    · by_cases good : report.exitCode = 0
      · exact .inr (stored changed good storable)
      · exact .inl (reopens _ (kept (.inr good)))
  · rintro error after (stays | ⟨compiled, cleared⟩)
    · have same := stays wellFormed
      exact ⟨fun _ => same, .inl same, .inl (reopens _ same)⟩
    · have removed := cleared wellFormed
      refine ⟨fun before => absurd compiled before, removed, removed.imp (reopens _) fun gone => ?_⟩
      exact Session.opens_empty (gone.pathExists isCacheFile.plain)

section First

def firstRequest : BuildRequest where
  classpath := ∅
  classpathChanged := true
  outputRoot := ⟨"out"⟩
  cacheFile := ⟨"cache/solver.bin"⟩
  sources := Std.ExtTreeMap.ofList [(⟨"src/A.java"⟩, .added)] compare

def firstWorld : World where
  files :=
    { entries := Std.ExtTreeMap.ofList
        [(["src"], .directory), (["src", "A.java"], .file (Text.Utf8.encode "A"))] compare
      host := { workingDirectory := [] } }

private theorem firstWorld_holds :
    firstWorld.files.WellFormed ∧ firstWorld.files.pathExists ⟨"cache/solver.bin"⟩ = false ∧
      (outcome? (choose PlainText.copying firstRequest) ⟨.empty, firstWorld⟩).any fun ended =>
        ended.1.mode = .full && ended.1.exitCode = 0 &&
          ended.2.session.toCacheData.encode.length < 2 ^ 32 := by
  decide +kernel

private theorem apart_firstRequest (files : FileSystem) :
    Apart files firstRequest.outputRoot firstRequest.cacheFile :=
  apart_of_steps (by decide) (by decide) (by decide) files

private theorem leavesAlone_firstRequest :
    PlainText.copying.LeavesAlone firstRequest.outputRoot firstRequest.cacheFile := by
  have serves : PlainText.copying.Serves PlainText.language firstRequest.outputRoot
      [firstRequest.cacheFile] :=
    PlainText.serves_copying (by decide) (by simpa using apart_firstRequest)
  exact serves.leavesAlone (.head _) (by decide)

theorem cache_file_changes_at_once_first :
    ∃ report after, choose PlainText.copying firstRequest ⟨.empty, firstWorld⟩ = .ok report after ∧
      report.mode = .full ∧ report.exitCode = 0 ∧
      Session.Opens ⟨"cache/solver.bin"⟩
        (.ofStored after.session.classToSource after.session.graph) after.world := by
  obtain ⟨wellFormed, absent, builds⟩ := firstWorld_holds
  obtain ⟨⟨report, after⟩, ended, builds⟩ := Option.any_eq_true _ _ |>.mp builds
  simp only [Bool.and_eq_true, decide_eq_true_eq] at builds
  obtain ⟨⟨full, good⟩, storable⟩ := builds
  have isCacheFile : IsCacheFile firstRequest.cacheFile :=
    ⟨⟨"cache"⟩, "solver", by decide, by decide, by decide⟩
  have own : Outputs.OwnExtension PlainText.copying.outputExtension :=
    ⟨by decide, by decide, by decide, by decide⟩
  obtain ⟨session, opens, -, ends⟩ := cache_file_changes_at_once wellFormed isCacheFile
    (.inl absent) (by decide) (by decide) (apart_firstRequest _) own leavesAlone_firstRequest
  have empty : Session.Opens firstRequest.cacheFile .empty firstWorld := Session.opens_empty absent
  obtain ⟨rfl, -⟩ := EStateM.Result.ok.inj (empty.symm.trans opens)
  have returns := eq_ok_of_outcome? ended
  refine ⟨report, after, returns, full, good, (ends.of_ok returns).stored ?_ good storable⟩
  rw [full]
  nofun

end First

end Build

end AbiBuild
