import AbiBuild.CommandLine.Run
import AbiBuild.Proofs.Build.Projects

/-!
# Single invocations

An invocation looks for changes, builds, and then keeps the digests of a good build or drops them.
Whatever becomes of the build itself, what was remembered stays true.
-/

namespace AbiBuild.CommandLine

open Files FileSystem Changes

def tryPair (layout : CacheLayout) (toolchain : Toolchain) (pair : RootPair)
    (classpath : List Path) : BuildAction (Option (Detector × BuildReport)) := do
  let detector : Detector := ⟨layout.digestRoot, none, none⟩
  let (sources, detector) ← detector.sourceStates pair toolchain.sourceExtension
  if (SourceStates.present sources).isEmpty then
    BuildAction.notify (.noSources pair.source)
    return none
  let (classpathChanged, detector) ← detector.classpathChanged pair classpath
  let directory ← BuildAction.inspect (·.directory)
  let report ← buildOrRebuild toolchain detector pair
    { classpath := PathSet.ofList classpath
      classpathChanged := classpathChanged
      outputRoot := pair.output
      cacheFile := layout.sessionFile pair directory
      sources := sources }
  return some (detector, report)

def concludePair (pair : RootPair) : Option (Detector × BuildReport) → BuildAction Int
  | none => pure 1
  | some (detector, report) => do
    finish detector pair report
    return report.exitCode

theorem compilePair_eq (layout : CacheLayout) (toolchain : Toolchain) (pair : RootPair)
    (classpath : List Path) : compilePair layout toolchain pair classpath =
      tryPair layout toolchain pair classpath >>= concludePair pair := by
  simp only [compilePair, tryPair, bind_assoc]
  congr 1
  funext ⟨sources, detector⟩
  dsimp only
  split
  · simp [concludePair]
  · simp [bind_assoc, concludePair]

theorem compilePair_eq_error {layout : CacheLayout} {toolchain : Toolchain} {pair : RootPair}
    {classpath : List Path} {world next : World} {error : BuildError}
    (tries : tryPair layout toolchain pair classpath world = .error error next) :
    compilePair layout toolchain pair classpath world = .error error next := by
  rw [compilePair_eq]
  exact bind_eq_error tries

end AbiBuild.CommandLine

namespace AbiBuild.Project

open Files FileSystem Changes Build CommandLine

variable {project : Project} {toolchain : Toolchain} {classpath : List Path}
  {known gains : List (String × Bytes) → FileSystem → Prop}

/-! ## What an attempt asks for -/

/-- A build is asked for with the sources as they are, and with what is remembered of them unless it
has to start over. -/
structure Asks (project : Project) (toolchain : Toolchain)
    (known : List (String × Bytes) → FileSystem → Prop) (request : BuildRequest)
    (before now : List (String × Bytes)) (files : FileSystem) : Prop where
  output : request.outputRoot = project.pair.output
  cacheFile : request.cacheFile = project.sessionFile files
  ready : Ready project.layout project.pair toolchain.sourceExtension now files
  located : Located project.pair.source toolchain.sourceExtension before
  states : ∀ path state, (path, state) ∈ request.sources.toList ↔
    StandsBetween before now path.text state
  remembers : request.classpathChanged = false → project.Remembers before files ∧ known before files

theorem Asks.nonempty {request : BuildRequest} {before now : List (String × Bytes)}
    {files : FileSystem} (asks : project.Asks toolchain known request before now files)
    (present : ¬request.sources.present.isEmpty) : now ≠ [] := by
  rintro rfl
  refine present ?_
  rw [List.isEmpty_iff, List.eq_nil_iff_forall_not_mem]
  intro path member
  obtain ⟨content, listed⟩ := (mem_present_iff asks.states path).mp member
  cases listed

abbrev ServedBy (project : Project) (toolchain : Toolchain) : Prop :=
  toolchain.Serves project.language project.pair.output [project.pair.source, project.layout.root]

theorem Asks.ends {request : BuildRequest} {before now : List (String × Bytes)} {world : World}
    (serves : project.ServedBy toolchain)
    (asks : project.Asks toolchain known request before now world.files) :
    Ends (compileSources toolchain request) world
      (fun report next => Concludes project.language project.layout project.pair
        world.files.directory now world.files report next.files)
      (fun _ next => project.Retains world.files next.files) :=
  (ends_compileSources serves asks.output asks.cacheFile asks.ready asks.located asks.states
    fun unchanged => (asks.remembers unchanged).1.recalls).imp (fun _ _ concludes => concludes)
    fun _ _ => retains_of_quiet asks.ready.disjoint.plainRoot

structure Built (project : Project) (gains : List (String × Bytes) → FileSystem → Prop)
    (contents : List (String × Bytes)) (before : FileSystem) (detector : Detector)
    (report : BuildReport) (after : FileSystem) : Prop where
  lists : Lists before project.pair.source project.sourceExtension contents
  nonempty : contents ≠ []
  root : detector.root = project.layout.digestRoot
  classpath : ∃ digest, detector.classpathDigest = some digest
  digests : detector.sourceDigests = some (digestsOf contents)
  sources : Keeps project.pair.source before after
  good : report.exitCode = 0 → gains contents after ∧
    (Sound (project.language.surfaces contents) → project.language.Covers contents ∧
      ∃ session : Session, session.Reflects (project.language.surfaces contents) ∧
        after.Holds (project.sessionFile before) session.toCacheData.encode)
  bad : report.exitCode ≠ 0 → project.Retains before after

theorem Kept.asks {known : List (String × Bytes) → FileSystem → Prop} {files : FileSystem}
    {contents : List (String × Bytes)} {request : BuildRequest}
    (extension : toolchain.sourceExtension = project.sourceExtension)
    (kept : project.Kept known files)
    (lists : Lists files project.pair.source project.sourceExtension contents)
    (occurs : ∀ path content, project.IsSource files path content → project.Occurs content)
    (output : request.outputRoot = project.pair.output)
    (cacheFile : request.cacheFile = project.sessionFile files)
    (sources : request.sources = statesBetween ((stored? digestsReader files
      ((project.stateDirectory files).join sourcesFile)).getD ∅) (digestsOf contents))
    (classpathChanged : project.Forgotten files → request.classpathChanged = true) :
    ∃ before, project.Asks toolchain known request before contents files := by
  have occurring : ∀ source ∈ contents, project.Occurs source.2 :=
    fun source listed => occurs ⟨source.1⟩ source.2 ((lists.member _ _).mp listed)
  have states : ∀ before : List (String × Bytes),
      Located project.pair.source project.sourceExtension before →
      (∀ source ∈ before, project.Occurs source.2) →
      (stored? digestsReader files ((project.stateDirectory files).join sourcesFile)).getD ∅ =
        digestsOf before →
      ∀ path state, (path, state) ∈ request.sources.toList ↔
        StandsBetween before contents path.text state := by
    intro before located occurred previous
    rw [sources, previous]
    refine mem_statesBetween_digestsOf located.distinct lists.distinct ?_ ?_
    · rintro source (listed | listed)
      · exact located.plain ⟨source.2, listed⟩
      · exact lists.located.plain ⟨source.2, listed⟩
    · intro text old new hold hnew
      exact project.apart old new (occurred _ hold) (occurring _ hnew)
  have ready : Ready project.layout project.pair toolchain.sourceExtension contents files :=
    ⟨kept.wellFormed, kept.disjoint, extension ▸ lists⟩
  rcases kept.memory with forgotten | ⟨before, remembers, knows⟩
  · have none : stored? digestsReader files
        ((project.stateDirectory files).join sourcesFile) = none :=
      forgotten.stored?_eq_none (by constructor <;> decide)
    have empty : Located project.pair.source project.sourceExtension [] :=
      ⟨List.Pairwise.nil, by simp, by simp⟩
    refine ⟨[], output, cacheFile, ready, extension ▸ empty,
      states [] empty (by simp) (by rw [none]; rfl), fun unchanged => ?_⟩
    rw [classpathChanged forgotten] at unchanged
    cases unchanged
  · exact ⟨before, output, cacheFile, ready, extension ▸ remembers.located,
      states before remembers.located remembers.occurring (by rw [remembers.digests]; rfl),
      fun _ => ⟨remembers, knows⟩⟩

/-! ## How an attempt ends -/

section Attempt

variable {world : World} {detector : Detector}

theorem ends_clear_retains (disjoint : Disjoint project.layout project.pair world.files)
    (root : detector.root = project.layout.digestRoot) :
    Ends (detector.clear project.pair) world
      (fun _ next => project.Retains world.files next.files)
      (fun _ next => project.Retains world.files next.files) := by
  have plain := disjoint.plainRoot
  have below := CacheLayout.below_digestRoot plain
  have apart : Apart world.files project.layout.digestRoot project.pair.source :=
    (disjoint.state_source.symm.below below).symm
  have same : detector.directoryOf project.pair world.files =
      project.stateDirectory world.files := by
    rw [Detector.directoryOf, root, stateDirectory]
  have retains : ∀ next : World, (Clears detector.root world.files next.files ∧
      (Keeps (detector.directoryOf project.pair world.files) world.files next.files ∨
        Bare (detector.directoryOf project.pair world.files) next.files)) →
      project.Retains world.files next.files := by
    rintro next ⟨clears, digests⟩
    rw [root] at clears
    rw [same] at digests
    exact retains_of_keeps (clears.toWithin.keeps apart) (clears.spares _) digests
  exact (Detector.ends_clear (by rw [root]; exact below.plain)).imp (fun _ => retains)
    fun _ => retains

theorem Asks.restart {request : BuildRequest} {before now : List (String × Bytes)}
    {files next : FileSystem} (asks : project.Asks toolchain known request before now files)
    (retains : project.Retains files next) :
    project.Asks toolchain known { request with classpathChanged := true } before now next where
  output := asks.output
  cacheFile := by rw [sessionFile_eq retains.sources.host]; exact asks.cacheFile
  ready := asks.ready.keeps retains.sources
  located := asks.located
  states := asks.states
  remembers := nofun

def Gains (project : Project) (toolchain : Toolchain)
    (known gains : List (String × Bytes) → FileSystem → Prop) : Prop :=
  ∀ request before now world, project.Asks toolchain known request before now world.files →
    Ends (compileSources toolchain request) world
      (fun report next => report.exitCode = 0 → gains now next.files) (fun _ _ => True)

theorem gains_true : project.Gains toolchain known fun _ _ => True :=
  fun _ _ _ _ _ => (ends_true _ _).imp (fun _ _ _ _ => trivial) fun _ _ _ => trivial

theorem ends_buildOrRebuild {request : BuildRequest} {before now : List (String × Bytes)}
    (serves : project.ServedBy toolchain) (gaining : project.Gains toolchain known gains)
    (extension : toolchain.sourceExtension = project.sourceExtension)
    (asks : project.Asks toolchain known request before now world.files) (nonempty : now ≠ [])
    (root : detector.root = project.layout.digestRoot)
    (classpath : ∃ digest, detector.classpathDigest = some digest)
    (digests : detector.sourceDigests = some (digestsOf now)) :
    Ends (buildOrRebuild toolchain detector project.pair request) world
      (fun report next => project.Built gains now world.files detector report next.files)
      (fun _ next => project.Retains world.files next.files) := by
  have plain := asks.ready.disjoint.plainRoot
  have here : Lists world.files project.pair.source project.sourceExtension now :=
    extension ▸ asks.ready.lists
  have compiles : ∀ {request : BuildRequest} {next : World}, project.Retains world.files next.files →
      project.Asks toolchain known request before now next.files →
      Ends (compileSources toolchain request) next
        (fun report last => project.Built gains now world.files detector report last.files)
        (fun _ last => project.Retains world.files last.files) := by
    intro request next retains asks
    refine ((asks.ends serves).and (gaining _ _ _ _ asks)).imp ?_
      fun _ _ failed => Accumulates.trans retains failed.1
    rintro report last ⟨concludes, gained⟩
    have stays : Keeps project.pair.source next.files last.files := by
      by_cases good : report.exitCode = 0
      · exact (concludes.good good).sources
      · exact (concludes.bad good).sources
    refine ⟨here, nonempty, root, classpath, digests, Accumulates.trans retains.sources stays, ?_, ?_⟩
    · intro good
      refine ⟨gained good, ?_⟩
      have session := (concludes.good good).session
      change _ → _ ∧ ∃ _, _ ∧ last.files.Holds (project.sessionFile next.files) _ at session
      rwa [sessionFile_eq retains.sources.host] at session
    · exact fun bad => Accumulates.trans retains (retains_of_quiet plain (concludes.bad bad))
  rw [buildOrRebuild, ends_tryCatch]
  refine (compiles (Accumulates.refl world.files) asks).imp (fun _ _ built => built) ?_
  intro error failed retains
  rw [ends_ite]
  split
  · rw [ends_bind, ends_notify, ends_bind]
    have disjoint : Disjoint project.layout project.pair failed.files :=
      asks.ready.disjoint.congr retains.sources.host
    generalize noticed : ({ failed with notices := _ } : World) = middle
    obtain same : middle.files = failed.files := by rw [← noticed]
    rw [← same] at retains disjoint
    refine (ends_clear_retains disjoint root).imp ?_ fun _ _ => Accumulates.trans retains
    intro _ cleared clears
    have retains := Accumulates.trans retains clears
    exact compiles retains (asks.restart retains)
  · exact retains

theorem ends_tryPair (serves : project.ServedBy toolchain)
    (gaining : project.Gains toolchain known gains)
    (extension : toolchain.sourceExtension = project.sourceExtension)
    (kept : project.Kept known world.files)
    (occurs : ∀ path content, project.IsSource world.files path content → project.Occurs content) :
    Ends (tryPair project.layout toolchain project.pair classpath) world
      (fun result next => match result with
        | none => next.files = world.files
        | some (detector, report) => ∃ contents,
          project.Built gains contents world.files detector report next.files)
      (fun _ next => project.Retains world.files next.files) := by
  have stays : ∀ {next : World}, next.files = world.files →
      project.Retains world.files next.files := by
    intro next same
    rw [same]
    exact Accumulates.refl world.files
  rw [tryPair, ends_bind]
  refine (Detector.ends_sourceStates _ project.pair world toolchain.sourceExtension).imp ?_
    fun _ _ => stays
  rintro _ listed ⟨sameFiles, contents, collects, rfl⟩
  dsimp only
  have lists := Lists.of_sourceContents kept.wellFormed kept.disjoint.plainSource collects
  rw [extension] at lists
  generalize found : statesBetween _ _ = sources
  rw [ends_ite]
  split
  · rw [ends_bind, ends_notify]
    exact sameFiles
  · next present =>
    rw [ends_bind]
    refine (Detector.ends_classpathChanged _ project.pair listed classpath).imp ?_
      fun _ _ same => stays (same.trans sameFiles)
    rintro _ looked ⟨same, digest, rfl⟩
    dsimp only
    rw [ends_bind, ends_inspect, ends_bind, same, sameFiles]
    generalize asked : (BuildRequest.mk _ _ _ _ _) = request
    have asks : ∃ before, project.Asks toolchain known request before contents world.files := by
      refine kept.asks extension lists occurs ?_ ?_ ?_ ?_
      · rw [← asked]
      · rw [← asked]
        rfl
      · rw [← asked]
        exact found.symm
      · intro forgotten
        have none : stored? digestReader world.files
            ((project.stateDirectory world.files).join classpathFile) = none :=
          forgotten.stored?_eq_none (by constructor <;> decide)
        rw [← asked, decide_eq_true_iff]
        change stored? digestReader world.files
          ((project.stateDirectory world.files).join classpathFile) ≠ some digest
        rw [none]
        exact nofun
    obtain ⟨before, asks⟩ := asks
    have nonempty : contents ≠ [] := asks.nonempty (by rwa [← asked])
    have whole := same.trans sameFiles
    rw [← whole] at asks
    refine (ends_buildOrRebuild serves gaining extension asks nonempty rfl ⟨digest, rfl⟩ rfl).imp ?_ ?_
    · intro report next built
      rw [whole] at built
      exact ⟨contents, built⟩
    · intro _ next retains
      rwa [whole] at retains

/-! ## How an invocation ends -/

def SavesDigests (project : Project) (toolchain : Toolchain) (classpath : List Path)
    (world : World) : Prop :=
  ∀ detector report middle, tryPair project.layout toolchain project.pair classpath world =
    .ok (some (detector, report)) middle → report.succeeded →
      ∃ saved, detector.save project.pair middle = .ok () saved

theorem savesDigests_of_returns {exitCode : Int} {next : World}
    (returns : compilePair project.layout toolchain project.pair classpath world =
      .ok exitCode next) : project.SavesDigests toolchain classpath world := by
  intro detector report middle tries good
  rw [compilePair_eq] at returns
  obtain ⟨result, middle', tries', concludes⟩ := exists_of_bind_eq_ok returns
  rw [tries] at tries'
  injection tries' with same sameMiddle
  subst same sameMiddle
  obtain ⟨_, saved, finishes, -⟩ := exists_of_bind_eq_ok concludes
  rw [finish, if_pos good] at finishes
  exact ⟨saved, finishes⟩

def Small (project : Project) (files : FileSystem) : Prop :=
  ∀ path octets, Below project.layout.root path → files.read path = .ok octets →
    octets.length < 2 ^ 32

theorem small_of_entries {files : FileSystem} (wellFormed : files.WellFormed)
    (short : ∀ entry ∈ files.entries.toList, entry.2.octets.length < 2 ^ 32) :
    project.Small files := by
  intro path octets below reads
  rw [FileSystem.read_eq_ok wellFormed below.plain] at reads
  exact short _ (Std.ExtTreeMap.mem_toList_iff_getElem?_eq_some.mpr reads.2.1)

/-- How an invocation ends: there was nothing to build, or the digests of what was built are kept
or thrown away. -/
theorem ends_compilePair_of {layout : CacheLayout} {pair : RootPair}
    (good : Int → FileSystem → Prop) (bad : FileSystem → Prop)
    {tried : Option (Detector × BuildReport) → World → Prop}
    (tries : Ends (tryPair layout toolchain pair classpath) world tried
      fun _ next => bad next.files)
    (nothing : ∀ middle, tried none middle → good 1 middle.files)
    (saves : ∀ detector report middle, tried (some (detector, report)) middle →
      report.succeeded = true → Ends (detector.save pair) middle
        (fun _ next => good report.exitCode next.files) fun _ next => bad next.files)
    (clears : ∀ detector report middle, tried (some (detector, report)) middle →
      ¬report.succeeded = true → Ends (detector.clear pair) middle
        (fun _ next => good report.exitCode next.files) fun _ next => bad next.files) :
    Ends (compilePair layout toolchain pair classpath) world
      (fun exitCode next => good exitCode next.files) fun _ next => bad next.files := by
  rw [compilePair_eq, ends_bind]
  refine tries.imp ?_ fun _ _ failed => failed
  intro result middle reached
  cases result with
  | none => exact nothing middle reached
  | some outcome =>
      obtain ⟨detector, report⟩ := outcome
      rw [concludePair, ends_bind, finish, ends_ite]
      split
      next succeeded => exact saves detector report middle reached succeeded
      next failed =>
        rw [ends_bind]
        exact clears detector report middle reached failed

/-- An invocation that does not succeed leaves sources and state as they were, or less of the
state. -/
theorem ends_compilePair (serves : project.ServedBy toolchain)
    (extension : toolchain.sourceExtension = project.sourceExtension)
    (kept : project.Kept known world.files)
    (occurs : ∀ path content, project.IsSource world.files path content → project.Occurs content)
    (saves : project.SavesDigests toolchain classpath world) :
    Ends (compilePair project.layout toolchain project.pair classpath) world
      (fun exitCode next => exitCode ≠ 0 → project.Retains world.files next.files)
      (fun _ next => project.Retains world.files next.files) := by
  refine ends_compilePair_of (fun exitCode files => exitCode ≠ 0 → project.Retains world.files files)
    (project.Retains world.files) ((ends_tryPair serves gains_true extension kept occurs).result.imp
      (fun _ _ reached => reached) fun _ _ failed => failed.2) ?_ ?_ ?_
  · rintro middle ⟨-, built⟩ -
    rw [show middle.files = world.files from built]
    exact Accumulates.refl world.files
  · rintro detector report middle ⟨tried, -⟩ succeeded
    obtain ⟨saved, stores⟩ := saves detector report middle tried succeeded
    rw [Ends, stores]
    exact fun nonzero => absurd (of_decide_eq_true succeeded) nonzero
  · rintro detector report middle ⟨-, contents, built⟩ failed
    have retains := built.bad (by simpa [BuildReport.succeeded] using failed)
    refine (ends_clear_retains (kept.disjoint.congr retains.host) built.root).imp ?_
      fun _ _ => Accumulates.trans retains
    exact fun _ _ clears _ => Accumulates.trans retains clears

theorem ends_compilePair_sources (serves : project.ServedBy toolchain)
    (extension : toolchain.sourceExtension = project.sourceExtension)
    (kept : project.Kept known world.files)
    (occurs : ∀ path content, project.IsSource world.files path content → project.Occurs content) :
    Ends (compilePair project.layout toolchain project.pair classpath) world
      (fun _ next => Keeps project.pair.source world.files next.files)
      (fun _ next => Keeps project.pair.source world.files next.files) := by
  have root := CacheLayout.below_digestRoot kept.disjoint.plainRoot
  refine ends_compilePair_of (fun _ => Keeps project.pair.source world.files)
    (Keeps project.pair.source world.files)
    ((ends_tryPair serves gains_true extension kept occurs).imp (fun _ _ reached => reached)
      fun _ _ retains => retains.sources) ?_ ?_ ?_
  · intro middle built
    rw [show middle.files = world.files from built]
    exact Accumulates.refl world.files
  · rintro detector report middle ⟨contents, built⟩ -
    have disjoint := kept.disjoint.congr built.sources.host
    obtain ⟨digest, classpath⟩ := built.classpath
    have keeps : ∀ next : World, Within detector.root middle.files next.files →
        Keeps project.pair.source world.files next.files := by
      intro next within
      rw [built.root] at within
      exact Accumulates.trans built.sources
        (within.keeps (disjoint.state_source.symm.below root).symm)
    exact (Detector.ends_save (by rw [built.root]; exact root.plain) classpath
      built.digests).imp (fun _ next stores => keeps next stores.1) fun _ => keeps
  · rintro detector report middle ⟨contents, built⟩ -
    exact (ends_clear_retains (kept.disjoint.congr built.sources.host) built.root).imp
      (fun _ _ clears => Accumulates.trans built.sources clears.sources)
      fun _ _ clears => Accumulates.trans built.sources clears.sources

def HonestHost (project : Project) (toolchain : Toolchain) (classpath : List Path)
    (world : World) : Prop :=
  ∀ detector report middle, tryPair project.layout toolchain project.pair classpath world =
    .ok (some (detector, report)) middle → ¬report.succeeded →
      some .notFound ∉ middle.files.refusals

theorem honestHost_of_returns {next : World} (returns : compilePair project.layout toolchain
    project.pair classpath world = .ok 0 next) : project.HonestHost toolchain classpath world := by
  intro detector report middle tries bad
  rw [compilePair_eq] at returns
  obtain ⟨result, middle', tries', concludes⟩ := exists_of_bind_eq_ok returns
  rw [tries] at tries'
  injection tries' with same
  subst same
  obtain ⟨_, last, -, zero⟩ := exists_of_bind_eq_ok concludes
  injection zero with zero
  exact absurd (decide_eq_true zero) bad

theorem ends_compilePair_forgets (serves : project.ServedBy toolchain)
    (extension : toolchain.sourceExtension = project.sourceExtension)
    (kept : project.Kept known world.files)
    (occurs : ∀ path content, project.IsSource world.files path content → project.Occurs content)
    (honest : project.HonestHost toolchain classpath world) :
    Ends (compilePair project.layout toolchain project.pair classpath) world
      (fun exitCode next => exitCode ≠ 0 → next.files = world.files ∨ project.Forgotten next.files)
      (fun _ _ => True) := by
  have plain := kept.disjoint.plainRoot
  refine ends_compilePair_of
    (fun exitCode files => exitCode ≠ 0 → files = world.files ∨ project.Forgotten files)
    (fun _ => True) ((ends_tryPair serves gains_true extension kept occurs).result.imp
      (fun _ _ reached => reached) fun _ _ _ => trivial) ?_ ?_ ?_
  · rintro middle ⟨-, built⟩ -
    exact .inl built
  · intro detector report middle _ succeeded
    refine (ends_true _ _).imp (fun _ _ _ nonzero => ?_) fun _ _ _ => trivial
    exact absurd (of_decide_eq_true succeeded) nonzero
  · rintro detector report middle ⟨tried, contents, built⟩ failed
    have wellFormed := built.sources.wellFormed kept.wellFormed
    have disjoint := kept.disjoint.congr built.sources.host
    have root : detector.root.Plain := by
      rw [built.root]
      exact (CacheLayout.below_digestRoot plain).plain
    refine ((Detector.ends_clear_bare root wellFormed (honest detector report middle tried
      failed)).and (ends_clear_retains disjoint built.root)).imp ?_ fun _ _ _ => trivial
    rintro _ cleared ⟨bare, retains⟩ -
    refine .inr (forgotten_of_bare (retains.wellFormed wellFormed) plain ?_)
    rw [stateDirectory_eq retains.host, stateDirectory, ← built.root]
    exact bare

structure Good (project : Project) (gains : List (String × Bytes) → FileSystem → Prop)
    (contents : List (String × Bytes)) (before after : FileSystem) : Prop where
  sources : Keeps project.pair.source before after
  disjoint : Disjoint project.layout project.pair after
  wellFormed : after.WellFormed
  legible : after.LegibleBelow project.layout.root
  lists : Lists after project.pair.source project.sourceExtension contents
  remembers : project.Remembers contents after
  gained : gains contents after
  session : ∃ session : Session, session.Reflects (project.language.surfaces contents) ∧
    Session.load after (project.sessionFile after) =
      .ok (.ofStored session.classToSource session.graph)

def AboutOutputs (project : Project) (gains : List (String × Bytes) → FileSystem → Prop) : Prop :=
  ∀ contents before after, before.WellFormed → Keeps project.pair.output before after →
    gains contents before → gains contents after

structure Keeping (project : Project) (contents : List (String × Bytes)) (session : Session)
    (files : FileSystem) : Prop where
  session : files.read (project.sessionFile files) = .ok session.toCacheData.encode
  digests : files.read ((project.stateDirectory files).join sourcesFile) =
    .ok (encodeDigests (digestsOf contents))

theorem Built.keeping {contents : List (String × Bytes)} {before middle after : FileSystem}
    {report : BuildReport} {session : Session}
    (built : project.Built gains contents before detector report middle)
    (plain : project.layout.root.Plain) (wellFormed : after.WellFormed)
    (legible : after.LegibleBelow project.layout.root)
    (within : Within project.layout.digestRoot middle after)
    (session' : middle.Holds (project.sessionFile before) session.toCacheData.encode)
    (digests : after.Holds ((detector.directoryOf project.pair middle).join sourcesFile)
      (encodeDigests (digestsOf contents))) : project.Keeping contents session after where
  session := by
    have below : Below project.layout.sessionRoot (project.sessionFile before) :=
      below_sessionFile plain before
    have stays : Keeps project.layout.sessionRoot middle after :=
      within.keeps (CacheLayout.apart_sessionRoot plain).symm
    rw [sessionFile_eq (within.host.trans built.sources.host),
      wellFormed.read_eq_ok_iff_holds below.plain]
    exact ⟨⟨session'.fits, by rw [stays.getElem? below]; exact session'.found⟩,
      legible _ ((CacheLayout.below_sessionRoot plain).trans below)⟩
  digests := by
    have below : Below project.layout.digestRoot (project.stateDirectory after) :=
      below_stateDirectory plain after
    have isName : IsName sourcesFile := by constructor <;> decide
    have same : detector.directoryOf project.pair middle = project.stateDirectory after := by
      rw [Detector.directoryOf, built.root, stateDirectory, directory_congr within.host]
    rw [wellFormed.read_eq_ok_iff_holds (below.plain.join isName)]
    exact ⟨by rwa [← same], legible _ ((CacheLayout.below_digestRoot plain).trans (below.join isName))⟩

namespace Keeping

variable {contents : List (String × Bytes)} {session : Session} {files : FileSystem}
  (keeping : project.Keeping contents session files) (plain : project.layout.root.Plain)
  (small : project.Small files)
include keeping plain small

theorem storable : session.Storable :=
  small _ _ ((CacheLayout.below_sessionRoot plain).trans (below_sessionFile plain files))
    keeping.session

theorem remembers (lists : Lists files project.pair.source project.sourceExtension contents)
    (nonempty : contents ≠ []) (occurs : ∀ source ∈ contents, project.Occurs source.2)
    (covers : project.language.Covers contents) (sound : Sound (project.language.surfaces contents))
    (reflects : session.Reflects (project.language.surfaces contents)) :
    project.Remembers contents files where
  located := lists.located
  occurring := occurs
  digests := by
    rw [stored?, keeping.digests]
    refine decodeState_encodeDigests (small _ _ ?_ keeping.digests)
    exact (CacheLayout.below_digestRoot plain).trans
      ((below_stateDirectory plain files).join (by constructor <;> decide))
  recalls := by
    refine ⟨nonempty, covers, sound.names, fun octets reads => ?_⟩
    obtain rfl := Except.ok.inj (reads.symm.trans keeping.session)
    exact ⟨session, reflects, keeping.storable plain small, rfl⟩

end Keeping

theorem exists_good {next : World} (serves : project.ServedBy toolchain)
    (gaining : project.Gains toolchain known gains) (outputs : project.AboutOutputs gains)
    (extension : toolchain.sourceExtension = project.sourceExtension)
    (kept : project.Kept known world.files)
    (occurs : ∀ path content, project.IsSource world.files path content → project.Occurs content)
    (returns : compilePair project.layout toolchain project.pair classpath world = .ok 0 next)
    (fits : project.Fits next.files) (small : project.Small next.files) :
    ∃ contents, project.Good gains contents world.files next.files := by
  rw [compilePair_eq] at returns
  obtain ⟨result, middle, tries, concludes⟩ := exists_of_bind_eq_ok returns
  have built := (ends_tryPair serves gaining extension kept occurs).of_ok tries
  cases result with
  | none => cases concludes
  | some outcome =>
      obtain ⟨detector, report⟩ := outcome
      obtain ⟨contents, built⟩ := built
      obtain ⟨_, last, finishes, zero⟩ := exists_of_bind_eq_ok concludes
      injection zero with zero last
      subst last
      have good : report.succeeded = true := decide_eq_true zero
      rw [finish, if_pos good] at finishes
      obtain ⟨digest, classpath⟩ := built.classpath
      have plain := kept.disjoint.plainRoot
      have root := CacheLayout.below_digestRoot plain
      have stores := (Detector.ends_save (by rw [built.root]; exact root.plain) classpath
        built.digests).of_ok finishes
      rw [built.root] at stores
      obtain ⟨within, holds⟩ := stores
      have disjoint := kept.disjoint.congr built.sources.host
      have sources : Keeps project.pair.source world.files last.files :=
        Accumulates.trans built.sources
          (within.keeps (disjoint.state_source.symm.below root).symm)
      have outputsStay : Keeps project.pair.output middle.files last.files :=
        within.keeps (disjoint.output_state.below root).symm
      have wellFormed := sources.wellFormed kept.wellFormed
      have legible := kept.legible.congr sources.host
      have lists := built.lists.keeps sources
      have occurs : ∀ source ∈ contents, project.Occurs source.2 :=
        fun source listed => occurs ⟨source.1⟩ source.2 ((built.lists.member _ _).mp listed)
      obtain ⟨gained, learned⟩ := built.good zero
      have sound := fits.sound lists
      obtain ⟨covers, session, reflects, stored⟩ := learned sound
      have keeping := built.keeping plain wellFormed legible within stored holds
      exact ⟨contents, sources, disjoint.congr within.host, wellFormed, legible, lists,
        keeping.remembers plain small lists built.nonempty occurs covers sound reflects,
        outputs contents _ _ (built.sources.wellFormed kept.wellFormed) outputsStay gained, session,
        reflects, Session.load_of_read (keeping.storable plain small) keeping.session⟩

end Attempt

end AbiBuild.Project
