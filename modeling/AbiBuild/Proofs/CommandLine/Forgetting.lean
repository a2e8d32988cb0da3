import AbiBuild.Proofs.CommandLine.Histories
import AbiBuild.Proofs.CommandLine.Rebuilding

/-!
# What a build of everything forgets

Builds of everything end alike, whatever was stored and whatever lay in the output root before.  So
an invocation that has to build again leaves behind what clearing and then compiling leaves.
-/

namespace AbiBuild

open Files FileSystem Changes CommandLine

/-! ## Writing in the output root -/

theorem AlikeButCache.write {outputRoot cacheFile : Path} {name : String} {content : Bytes}
    {first second : World} (isName : IsName name)
    (fits : Fits (outputRoot.join name))
    (alike : AlikeButCache outputRoot cacheFile first.files second.files)
    (bare : Bare outputRoot first.files) :
    EndAlike (fun _ next other => AlikeButCache outputRoot cacheFile next.files other.files)
      (fun _ next other => AlikeButCache outputRoot cacheFile next.files other.files)
      (BuildAction.change (FileSystem.write (outputRoot.join name) content) first)
      (BuildAction.change (FileSystem.write (outputRoot.join name) content) second) := by
  have plain := alike.left.output.plain
  have places := placeFor_congr alike.host
  have place : first.files.placeFor (outputRoot.join name) =
      first.files.placeFor outputRoot ++ [name] := placeFor_join plain isName.whole
  have below : first.files.placeFor (outputRoot.join name) ≠ [] := by simp [place]
  have inside : first.files.placeFor outputRoot <+: first.files.placeFor (outputRoot.join name) :=
    place ▸ List.prefix_append _ _
  have missing : first.files.entryAt? (first.files.placeFor (outputRoot.join name)) = none := by
    rw [entryAt?_of_ne_nil _ below]
    exact bare _ inside (by simp [place])
  have output' : second.files.entryAt? (second.files.placeFor outputRoot) = some .directory := by
    rw [places, alike.elsewhere _ alike.left.apart.left, alike.output]
  have missing' : second.files.entryAt? (second.files.placeFor (outputRoot.join name)) = none := by
    rw [places, alike.elsewhere _ fun leads => alike.left.apart.left (inside.trans leads), missing]
  have writes : FileSystem.write (outputRoot.join name) content first.files = _ :=
    write_of_open alike.left.calm alike.left.output.toOpen isName fits alike.output missing
  have writes' : FileSystem.write (outputRoot.join name) content second.files = _ :=
    write_of_open alike.right.calm alike.right.output.toOpen isName fits output' missing'
  have built := (ends_write_buildsIn plain isName first.files).of_ok writes
  have built' := (ends_write_buildsIn plain isName second.files).of_ok writes'
  rw [BuildAction.change, BuildAction.change, writes, writes']
  refine .returned ⟨alike.left.buildsIn built, alike.right.buildsIn built', alike.host, ?_, ?_⟩
  · rw [placeFor_setEntry, entryAt?_setEntry below, if_neg (by simp [place]), alike.output]
  · intro other elsewhere
    rw [placeFor_setEntry] at elsewhere
    rw [places, entryAt?_setEntry below, entryAt?_setEntry below, alike.elsewhere other elsewhere]

namespace CommandLine

/-! ## Forgetting -/

/-- If nothing is in the way of two builds of everything, and the compiler and the readers overlook the
cache file, they end alike; and whoever builds again could as well have cleared. -/
theorem full_builds_forget (toolchain : Toolchain) :
    (∀ (request : BuildRequest) (changed : Bool) (states : SourceStates) (world other : World),
      toolchain.Overlooks request.cacheFile (Build.everything request) →
      states.present = request.sources.present →
      AlikeOutside request.outputRoot request.cacheFile world.files other.files →
      Build.StartsFull request world →
      Build.StartsFull { request with classpathChanged := changed, sources := states } other →
      EndAlike
        (fun report next next' => report.mode = .full ∧
          Keeps request.outputRoot next.files next'.files ∧
          (report.exitCode = 0 → OpensAlike request.cacheFile next next'))
        (fun _ next next' => Keeps request.outputRoot next.files next'.files)
        (Build.compileSources toolchain request world)
        (Build.compileSources toolchain
          { request with classpathChanged := changed, sources := states } other)) ∧
    ∀ (layout : CacheLayout) (pair : RootPair) (classpath : List Path) (detector : Detector)
      (request : BuildRequest) (world asked failed next : World) (error : BuildError),
      CanRebuild layout pair world.files →
      toolchain.BuildsOnly pair.output →
      toolchain.Overlooks request.cacheFile (Build.everything request) →
      (∀ digests, stored? digestsReader world.files
        ((layout.stateDirectory pair world.files.directory).join sourcesFile) = some digests →
          ∀ text ∈ digests, Path.Plain ⟨text⟩) →
      (∀ cleared, clearPair layout pair world = .ok () cleared →
        classpathStream cleared.files classpath = classpathStream world.files classpath) →
      askPair layout toolchain pair classpath world = .ok (some (detector, request)) asked →
      Build.compileSources toolchain request asked = .error error failed →
      error.requiresFullRebuild →
      compilePair layout toolchain pair classpath world = .ok 0 next →
      ∃ cleared built, clearPair layout pair world = .ok () cleared ∧
        compilePair layout toolchain pair classpath cleared = .ok 0 built ∧
          built.files = next.files := by
  constructor
  · intro request changed states world other overlooks present alike starts starts'
    refine (Build.compileSources_alike overlooks present alike starts starts').imp ?_
      fun _ _ _ => id
    rintro report next next' ⟨mode, outputs, same⟩
    exact ⟨mode, outputs, fun good => (same good).opensAlike⟩
  · intro layout pair classpath detector request world asked failed next error can builds overlooks
      recorded stays asks fails rebuild returns
    exact compilePair_like_cleared can builds overlooks recorded stays asks fails rebuild returns

/-! ## A compiler that knows one type -/

section Stamping

variable {outputRoot cacheFile : Path}

/-- Each source declares the same type, whose unit is empty. -/
def stamping : Toolchain where
  surfaceOf _ _ := .ok (SourceAbi.ofTypes "A" [] [])
  typeDeclaredBy _ _ := .ok "A"
  compile request := do
    BuildAction.change (FileSystem.write (request.outputRoot.join "A.class") [])
    pure 0
  sourceExtension := "java"
  outputExtension := "class"

theorem buildsOnly_stamping (plain : outputRoot.Plain) : stamping.BuildsOnly outputRoot where
  compiles compile sameRoot world := by
    subst sameRoot
    change Ends (BuildAction.change _ >>= fun _ => pure 0) world _ _
    rw [ends_bind, ends_change]
    exact (ends_write_buildsIn plain (by decide) world.files).imp (fun _ _ built => built)
      fun _ _ _ => rfl
  declares files source error fails := by cases fails
  surfaces files unit error fails := by cases fails

theorem overlooks_stamping {compile : CompileRequest}
    (fits : Fits (compile.outputRoot.join "A.class")) : stamping.Overlooks cacheFile compile where
  compiles first second alike bare :=
    .bind ((alike.write (by decide) fits bare).imp (fun _ _ _ same => .returned same)
      fun _ _ _ => id)
  declares _ _ _ _ _ := rfl
  surfaces _ _ _ _ _ _ _ := rfl

/-- Everything is to be compiled, since the class path has changed. -/
def restamp : BuildRequest where
  classpath := ∅
  classpathChanged := true
  outputRoot := ⟨"out"⟩
  cacheFile := ⟨"cache/session.bin"⟩
  sources := PathMap.put ∅ ⟨"src/A.java"⟩ .changed

/-- Nothing has changed, but there may be no session to go on from. -/
def restampUnchanged : BuildRequest :=
  { restamp with
    classpathChanged := false
    sources := PathMap.put ∅ ⟨"src/A.java"⟩ .notChanged }

/-- A cache file that cannot be read, and an output of a type that is gone. -/
def stale : World :=
  Project.worldOf (Project.sourceEntries [("A", Project.firstContent)] ++
    [(["cache"], .directory), (["cache", "session.bin"], .file [0]), (["out"], .directory),
      (["out", "B.class"], .file [])])

theorem startsFull_stale : Build.StartsFull restamp stale := by
  obtain ⟨session, opened, starts⟩ := Session.exists_start_eq_ok restamp.cacheFile stale
  exact ⟨session, opened, starts, .inl rfl⟩

theorem startsFull_unbuilt : Build.StartsFull restampUnchanged Project.unbuilt := by
  have missing : Project.unbuilt.files.pathExists restampUnchanged.cacheFile = false := by
    decide +kernel
  refine ⟨.empty, Project.unbuilt, ?_, .inr (by decide +kernel)⟩
  simp only [Session.start, bind, EStateM.bind, BuildAction.inspect, missing, Bool.false_eq_true,
    if_false]
  rfl

/-- The digests know of a source that the session does not know of. -/
def drifted : World :=
  { Project.built with
    files := Project.built.files.setEntry
      ["cache", "filesystem", Project.growing.pair.key ⟨"/"⟩, sourcesFile]
      (.file (encodeDigests (digestsOf (Project.contentsOf
        [("A", Project.firstContent), ("B", Project.secondContent)])))) }

abbrev stamp : BuildAction Int :=
  compilePair Project.growing.layout stamping Project.growing.pair []

/-- What is asked for once the digests have drifted. -/
def driftedRequest : BuildRequest :=
  requestFor Project.growing.layout Project.growing.pair []
    (Project.contentsOf [("A", Project.firstContent)]) [] drifted.files

def driftedAsked : World :=
  stateAfter (askPair Project.growing.layout stamping Project.growing.pair []) drifted

theorem canRebuild_drifted :
    CanRebuild Project.growing.layout Project.growing.pair drifted.files := by
  decide +kernel

theorem asks_drifted : askPair Project.growing.layout stamping Project.growing.pair [] drifted =
    .ok (some (detectorFor Project.growing.layout
      (Project.contentsOf [("A", Project.firstContent)]) [], driftedRequest)) driftedAsked := by
  have lists : sourceContents drifted.files Project.growing.pair.source stamping.sourceExtension =
      .ok (Project.contentsOf [("A", Project.firstContent)]) := by
    decide +kernel
  have streams : classpathStream drifted.files [] = .ok [] := rfl
  have some' : ¬driftedRequest.sources.present.isEmpty := by
    decide +kernel
  obtain ⟨asked, asks, -⟩ := exists_askPair lists streams some'
  rw [driftedAsked, stateAfter_of_eq_ok asks, asks, driftedRequest]

theorem drifted_builds :
    error? (Build.compileSources stamping driftedRequest) driftedAsked =
        some (.unknownSource "src/B.java") ∧
      (outcome? stamp drifted).map (·.1) = some 0 ∧
      ((stored? digestsReader drifted.files
        ((Project.growing.layout.stateDirectory Project.growing.pair drifted.files.directory).join
          sourcesFile)).all fun digests => digests.keys.all fun text => Path.Plain ⟨text⟩) := by
  decide +kernel

theorem full_builds_forget_stamping :
    (∃ report next next',
      Build.compileSources stamping restamp stale = .ok report next ∧
      Build.compileSources stamping restampUnchanged Project.unbuilt = .ok report next' ∧
      report.mode = .full ∧ report.exitCode = 0 ∧ OpensAlike restamp.cacheFile next next') ∧
    ∃ failed next cleared built,
      Build.compileSources stamping driftedRequest driftedAsked =
        .error (.unknownSource "src/B.java") failed ∧
      stamp drifted = .ok 0 next ∧
      clearPair Project.growing.layout Project.growing.pair drifted = .ok () cleared ∧
      stamp cleared = .ok 0 built ∧ built.files = next.files := by
  obtain ⟨forgets, retries⟩ := full_builds_forget stamping
  constructor
  · have alike : AlikeOutside restamp.outputRoot restamp.cacheFile stale.files
        Project.unbuilt.files := by
      decide +kernel
    have good : (outcome? (Build.compileSources stamping restamp) stale).map (·.1.exitCode) =
        some 0 := by
      decide +kernel
    obtain ⟨⟨report, next⟩, ends, zero⟩ := Option.map_eq_some_iff.mp good
    have builds := eq_ok_of_outcome? ends
    obtain ⟨next', builds', mode, -, same⟩ := (forgets restamp false restampUnchanged.sources stale
      Project.unbuilt (overlooks_stamping (by decide +kernel)) (by decide +kernel) alike
      startsFull_stale startsFull_unbuilt).exists_of_ok builds
    exact ⟨report, next, next', builds, builds', mode, zero, same zero⟩
  · obtain ⟨fails, good, recorded⟩ := drifted_builds
    have fails := eq_error_of_error? fails
    obtain ⟨⟨code, next⟩, ends, zero⟩ := Option.map_eq_some_iff.mp good
    obtain rfl : code = 0 := zero
    have returns := eq_ok_of_outcome? ends
    have plain : ∀ digests, stored? digestsReader drifted.files
        ((Project.growing.layout.stateDirectory Project.growing.pair drifted.files.directory).join
          sourcesFile) = some digests → ∀ text ∈ digests, Path.Plain ⟨text⟩ := by
      intro digests stored text known
      rw [stored] at recorded
      simpa using List.all_eq_true.mp recorded text (Std.ExtTreeMap.mem_keys.mpr known)
    obtain ⟨cleared, built, clears, builds, same⟩ := retries Project.growing.layout
      Project.growing.pair [] _ driftedRequest drifted driftedAsked _ next _
      canRebuild_drifted (buildsOnly_stamping (by decide)) (overlooks_stamping (by decide +kernel))
      plain (fun _ _ => rfl) asks_drifted fails rfl returns
    exact ⟨_, next, cleared, built, fails, returns, clears, builds, same⟩

end Stamping

end CommandLine

end AbiBuild
