import AbiBuild.Proofs.Build.Failing
import AbiBuild.Proofs.CommandLine.Invocations
import Mathlib.Data.List.Sort

/-!
# Building again from nothing

When what is stored turns out to be of no use, an invocation forgets the digests and builds
everything.  That leaves the same files behind as clearing first and then compiling.
-/

namespace AbiBuild

open Files FileSystem Changes MessagePack

variable {layout : CacheLayout} {toolchain : Toolchain} {pair : RootPair} {classpath : List Path}
  {world : World}

/-! ## Asking -/

namespace Changes

theorem exists_readState {α : Type} (reader : Reader α) (path : Path) (world : World) :
    ∃ next, readState reader path world = .ok (stored? reader world.files path) next ∧
      next.files = world.files := by
  have ends := ends_readState reader path world
  cases result : readState reader path world with
  | ok value next =>
      obtain ⟨rfl, same⟩ := ends.of_ok result
      exact ⟨next, rfl, same⟩
  | error error next => exact (ends.of_error result).elim

theorem Detector.exists_sourceStates (detector : Detector) (pair : RootPair) {extension : String}
    {contents : List (String × Bytes)}
    (lists : sourceContents world.files pair.source extension = .ok contents) : ∃ next,
      detector.sourceStates pair extension world =
          .ok (statesBetween ((stored? digestsReader world.files
              ((detector.directoryOf pair world.files).join sourcesFile)).getD ∅)
              (digestsOf contents),
            { detector with sourceDigests := some (digestsOf contents) }) next ∧
        next.files = world.files := by
  obtain ⟨next, reads, same⟩ := exists_readState digestsReader
    ((detector.directoryOf pair world.files).join sourcesFile) world
  refine ⟨next, ?_, same⟩
  rw [Detector.directoryOf] at reads ⊢
  simp only [sourceStates, stateDirectory, bind, EStateM.bind, BuildAction.consult,
    BuildAction.inspect, lists, Except.mapError, pure, EStateM.pure, reads]

theorem Detector.exists_classpathChanged (detector : Detector) (pair : RootPair) {stream : Bytes}
    (streams : classpathStream world.files classpath = .ok stream) : ∃ next,
      detector.classpathChanged pair classpath world =
          .ok (decide (stored? digestReader world.files
              ((detector.directoryOf pair world.files).join classpathFile) ≠
                some (Digest.Xxh3.digest stream)),
            { detector with classpathDigest := some (Digest.Xxh3.digest stream) }) next ∧
        next.files = world.files := by
  obtain ⟨next, reads, same⟩ := exists_readState digestReader
    ((detector.directoryOf pair world.files).join classpathFile) world
  refine ⟨next, ?_, same⟩
  rw [Detector.directoryOf] at reads ⊢
  simp only [classpathChanged, stateDirectory, bind, EStateM.bind, BuildAction.consult,
    BuildAction.inspect, streams, Except.mapError, pure, EStateM.pure, reads]

theorem Detector.directoryOf_of_root {detector : Detector} (root : detector.root = layout.digestRoot)
    (pair : RootPair) (files : FileSystem) :
    detector.directoryOf pair files = layout.stateDirectory pair files.directory := by
  rw [directoryOf, root, CacheLayout.stateDirectory]

end Changes

namespace CommandLine

/-- What an invocation asks to be built, with the digests to keep; nothing without sources. -/
def askPair (layout : CacheLayout) (toolchain : Toolchain) (pair : RootPair)
    (classpath : List Path) : BuildAction (Option (Detector × BuildRequest)) := do
  let detector : Detector := ⟨layout.digestRoot, none, none⟩
  let (sources, detector) ← detector.sourceStates pair toolchain.sourceExtension
  if (SourceStates.present sources).isEmpty then
    BuildAction.notify (.noSources pair.source)
    return none
  let (classpathChanged, detector) ← detector.classpathChanged pair classpath
  let directory ← BuildAction.inspect (·.directory)
  return some (detector,
    { classpath := PathSet.ofList classpath
      classpathChanged := classpathChanged
      outputRoot := pair.output
      cacheFile := layout.sessionFile pair directory
      sources := sources })

def answerPair (toolchain : Toolchain) (pair : RootPair) :
    Option (Detector × BuildRequest) → BuildAction Int
  | none => pure 1
  | some (detector, request) => do
    let report ← buildOrRebuild toolchain detector pair request
    finish detector pair report
    return report.exitCode

theorem compilePair_eq_ask (layout : CacheLayout) (toolchain : Toolchain) (pair : RootPair)
    (classpath : List Path) : compilePair layout toolchain pair classpath =
      askPair layout toolchain pair classpath >>= answerPair toolchain pair := by
  simp only [compilePair, askPair, bind_assoc]
  congr 1
  funext answer
  obtain ⟨sources, detector⟩ := answer
  dsimp only
  split
  · simp [answerPair]
  · simp [bind_assoc, answerPair]

/-- What is asked for where the sources have these contents and the class path is digested from these
octets. -/
def requestFor (layout : CacheLayout) (pair : RootPair) (classpath : List Path)
    (contents : List (String × Bytes)) (stream : Bytes) (files : FileSystem) : BuildRequest where
  classpath := PathSet.ofList classpath
  classpathChanged := decide (stored? digestReader files
    ((layout.stateDirectory pair files.directory).join classpathFile) ≠
      some (Digest.Xxh3.digest stream))
  outputRoot := pair.output
  cacheFile := layout.sessionFile pair files.directory
  sources := statesBetween ((stored? digestsReader files
    ((layout.stateDirectory pair files.directory).join sourcesFile)).getD ∅) (digestsOf contents)

theorem sources_requestFor (layout : CacheLayout) (pair : RootPair) (classpath : List Path)
    (contents : List (String × Bytes)) (stream : Bytes) (files : FileSystem) :
    (requestFor layout pair classpath contents stream files).sources =
      statesBetween ((stored? digestsReader files
        ((layout.stateDirectory pair files.directory).join sourcesFile)).getD ∅)
        (digestsOf contents) := by
  rw [requestFor]

def detectorFor (layout : CacheLayout) (contents : List (String × Bytes)) (stream : Bytes) :
    Detector :=
  ⟨layout.digestRoot, some (Digest.Xxh3.digest stream), some (digestsOf contents)⟩

theorem exists_askPair {contents : List (String × Bytes)} {stream : Bytes}
    (lists : sourceContents world.files pair.source toolchain.sourceExtension = .ok contents)
    (streams : classpathStream world.files classpath = .ok stream)
    (some' : ¬(requestFor layout pair classpath contents stream world.files).sources.present.isEmpty) :
    ∃ asked, askPair layout toolchain pair classpath world =
        .ok (some (detectorFor layout contents stream,
          requestFor layout pair classpath contents stream world.files)) asked ∧
      asked.files = world.files := by
  obtain ⟨listed, found, same⟩ :=
    Detector.exists_sourceStates ⟨layout.digestRoot, none, none⟩ pair lists
  rw [← same] at streams
  obtain ⟨asked, changed, same'⟩ := Detector.exists_classpathChanged
    ⟨layout.digestRoot, none, some (digestsOf contents)⟩ pair streams
  rw [Detector.directoryOf_of_root rfl] at found changed
  simp only [requestFor] at some' ⊢
  refine ⟨asked, ?_, same'.trans same⟩
  simp only [askPair, bind, EStateM.bind, found]
  rw [if_neg some']
  simp only [EStateM.bind, changed, BuildAction.inspect]
  rw [same', same]
  rfl

theorem exists_of_askPair {detector : Detector} {request : BuildRequest} {asked : World}
    (asks : askPair layout toolchain pair classpath world =
      .ok (some (detector, request)) asked) : ∃ contents stream,
      sourceContents world.files pair.source toolchain.sourceExtension = .ok contents ∧
        classpathStream world.files classpath = .ok stream ∧
        ¬request.sources.present.isEmpty ∧ detector = detectorFor layout contents stream ∧
        request = requestFor layout pair classpath contents stream world.files ∧
        asked.files = world.files := by
  cases lists : sourceContents world.files pair.source toolchain.sourceExtension with
  | error fault =>
      simp only [askPair, Detector.sourceStates, bind, EStateM.bind, BuildAction.consult, lists,
        Except.mapError] at asks
      cases asks
  | ok contents =>
      obtain ⟨listed, found, same⟩ :=
        Detector.exists_sourceStates ⟨layout.digestRoot, none, none⟩ pair lists
      rw [Detector.directoryOf_of_root rfl] at found
      cases streams : classpathStream world.files classpath with
      | error fault =>
          rw [← same] at streams
          simp only [askPair, bind, EStateM.bind, found] at asks
          split at asks
          · cases asks
          · simp only [Detector.classpathChanged, bind, EStateM.bind, BuildAction.consult, streams,
              Except.mapError] at asks
            cases asks
      | ok stream =>
          by_cases empty :
              (requestFor layout pair classpath contents stream world.files).sources.present.isEmpty
          · simp only [requestFor] at empty
            simp only [askPair, bind, EStateM.bind, found] at asks
            rw [if_pos empty] at asks
            cases asks
          · obtain ⟨asked', asks', same'⟩ := exists_askPair lists streams empty
            rw [asks] at asks'
            injection asks' with sameAnswer sameWorld
            obtain ⟨rfl, rfl⟩ := Prod.mk.inj (Option.some.inj sameAnswer)
            subst sameWorld
            exact ⟨contents, stream, rfl, rfl, empty, rfl, rfl, same'⟩

end CommandLine

/-! ## States of the sources that are there -/

namespace Changes

variable {previous current : SourceDigests}

theorem mem_present_statesBetween
    (plain : ∀ text, text ∈ previous ∨ text ∈ current → Path.Plain ⟨text⟩) (path : Path) :
    path ∈ SourceStates.present (statesBetween previous current) ↔ path.text ∈ current := by
  rw [SourceStates.present, SourceStates.mem_inState, Std.ExtTreeMap.mem_iff_isSome_getElem?]
  simp only [mem_statesBetween plain, stateFor]
  cases now : current[path.text]? with
  | none =>
      simp only [Option.isSome_none, Bool.false_eq_true, iff_false]
      rintro ⟨state, wanted, stands⟩
      rw [Option.ite_none_right_eq_some] at stands
      obtain ⟨-, same⟩ := stands
      obtain rfl := Option.some.inj same
      simp at wanted
  | some digest =>
      simp only [Option.isSome_some, iff_true]
      refine ⟨stateNow previous (path.text, digest), ?_, rfl⟩
      rw [stateNow]
      split
      · simp
      · split <;> simp

theorem pairwise_present (sources : SourceStates) :
    sources.present.Pairwise fun first second => compare first second = .lt := by
  rw [SourceStates.present, SourceStates.inState, List.pairwise_map]
  exact Std.ExtTreeMap.ordered_keys_toList.filter _

theorem present_statesBetween (plain : ∀ text, text ∈ previous ∨ text ∈ current → Path.Plain ⟨text⟩) :
    SourceStates.present (statesBetween ∅ current) =
      SourceStates.present (statesBetween previous current) := by
  have irrefl : Std.Irrefl fun first second : Path => compare first second = .lt := by
    refine ⟨fun path less => ?_⟩
    have same : compare path path = .eq := Std.ReflCmp.compare_self
    rw [same] at less
    cases less
  have antisymm : Std.Antisymm fun first second : Path => compare first second = .lt := by
    refine ⟨fun first second less more => ?_⟩
    have swapped : compare first second = (compare second first).swap := Std.OrientedCmp.eq_swap
    rw [swapped, more] at less
    cases less
  refine (pairwise_present _).eq_of_mem_iff (pairwise_present _) fun path => ?_
  rw [mem_present_statesBetween plain, mem_present_statesBetween]
  rintro text (known | there)
  · simp at known
  · exact plain text (.inr there)

theorem digestsOf_congr {first second : List (String × Bytes)}
    (distinct : first.Pairwise fun source other => source.1 ≠ other.1)
    (distinct' : second.Pairwise fun source other => source.1 ≠ other.1)
    (same : ∀ source, source ∈ first ↔ source ∈ second) : digestsOf first = digestsOf second := by
  refine Std.ExtTreeMap.ext_getElem? fun text => Option.ext fun digest => ?_
  rw [getElem?_digestsOf distinct, getElem?_digestsOf distinct']
  simp only [same]

end Changes

/-! ## Clearing -/

/-- The roots of the pair and its state lie apart, and nothing is in the way of what is written. -/
structure CanRebuild (layout : CacheLayout) (pair : RootPair) (files : FileSystem) : Prop where
  calm : files.Calm
  plainRoot : layout.root.Plain
  plainSource : pair.source.Plain
  output : TakesDirectory pair.output files
  session : TakesFile (layout.sessionFile pair files.directory) files
  digests : TakesDirectory (layout.stateDirectory pair files.directory) files
  output_state : Apart files pair.output layout.root
  state_source : Apart files layout.root pair.source

instance (layout : CacheLayout) (pair : RootPair) (files : FileSystem) :
    Decidable (CanRebuild layout pair files) :=
  decidable_of_iff (files.Calm ∧ layout.root.Plain ∧ pair.source.Plain ∧
      TakesDirectory pair.output files ∧
      TakesFile (layout.sessionFile pair files.directory) files ∧
      TakesDirectory (layout.stateDirectory pair files.directory) files ∧
      Apart files pair.output layout.root ∧ Apart files layout.root pair.source) <| by
    constructor
    · rintro ⟨calm, plainRoot, plainSource, output, session, digests, output_state, state_source⟩
      exact ⟨calm, plainRoot, plainSource, output, session, digests, output_state, state_source⟩
    · exact fun can => ⟨can.calm, can.plainRoot, can.plainSource, can.output, can.session,
        can.digests, can.output_state, can.state_source⟩

namespace CanRebuild

variable {files : FileSystem} (can : CanRebuild layout pair files)
include can

theorem below_session (directory : Path) : Below layout.root (layout.sessionFile pair directory) :=
  (CacheLayout.below_sessionRoot can.plainRoot).trans
    (CacheLayout.below_sessionFile can.plainRoot pair directory)

theorem below_digests (directory : Path) : Below layout.root (layout.stateDirectory pair directory) :=
  (CacheLayout.below_digestRoot can.plainRoot).trans
    (CacheLayout.below_stateDirectory can.plainRoot pair directory)

theorem canBuild : CanBuild pair.output (layout.sessionFile pair files.directory) files :=
  ⟨can.calm, can.output, can.session, can.output_state.below (can.below_session _)⟩

theorem output_digests : Apart files pair.output (layout.stateDirectory pair files.directory) :=
  can.output_state.below (can.below_digests _)

theorem session_digests : Apart files (layout.sessionFile pair files.directory)
    (layout.stateDirectory pair files.directory) :=
  ((CacheLayout.apart_sessionRoot can.plainRoot).below
    (CacheLayout.below_stateDirectory can.plainRoot pair _)).symm.below
      (CacheLayout.below_sessionFile can.plainRoot pair _) |>.symm

theorem sameBase : (layout.stateDirectory pair files.directory).isAbsolute =
    (layout.sessionFile pair files.directory).isAbsolute := by
  rw [(can.below_digests _).sameBase, (can.below_session _).sameBase]

end CanRebuild

namespace CommandLine

theorem exists_clear (detector : Detector) (world : World) (calm : world.files.Calm)
    (takes : TakesDirectory (detector.directoryOf pair world.files) world.files) : ∃ files,
      detector.clear pair world = .ok () { world with files } ∧
        Becomes world.files files
          (world.files.cleared (world.files.placeFor (detector.directoryOf pair world.files))) := by
  obtain ⟨files, removes, becomes⟩ := removeTree_of_open calm takes
  refine ⟨files, ?_, becomes⟩
  rw [Detector.directoryOf] at removes
  simp only [Detector.clear, Detector.stateDirectory, bind, EStateM.bind, BuildAction.inspect, pure,
    EStateM.pure, BuildAction.change, removes]

structure ClearedPair (layout : CacheLayout) (pair : RootPair) (before digestsGone after : FileSystem) :
    Prop where
  digests : Becomes before digestsGone
    (before.cleared (before.placeFor (layout.stateDirectory pair before.directory)))
  session : Becomes digestsGone after
    (digestsGone.without (digestsGone.placeFor (layout.sessionFile pair before.directory)))

theorem exists_clearPair (can : CanRebuild layout pair world.files) : ∃ cleared digestsGone,
    clearPair layout pair world = .ok () cleared ∧
      ClearedPair layout pair world.files digestsGone cleared.files := by
  obtain ⟨files, clears, becomes⟩ := exists_clear ⟨layout.digestRoot, none, none⟩ world can.calm
    can.digests
  have canCleared := can.canBuild.cleared can.output_digests can.session_digests becomes
  have directory := directory_congr becomes.host
  rw [← directory] at canCleared
  obtain ⟨session, opened, starts, stays⟩ :=
    Session.exists_start { world with files } canCleared.calm canCleared.cache
  have canOpened := ((AlikeOutside.refl canCleared).opened (.inl rfl) stays).right
  obtain ⟨last, resets, gone⟩ :=
    Session.exists_reset ⟨session, opened⟩ canOpened.calm canOpened.cache
  refine ⟨{ opened with files := last }, files, ?_, becomes, ?_⟩
  · simp only [clearPair, bind, EStateM.bind, clears, BuildAction.inspect, starts,
      SessionAction.run, resets]
  · rw [← directory]
    exact stays.without gone

namespace ClearedPair

variable {before digestsGone after : FileSystem} (can : CanRebuild layout pair before)
  (clears : ClearedPair layout pair before digestsGone after)
include clears

theorem host : after.host = before.host :=
  clears.session.host.trans clears.digests.host

theorem entryAt? {place : Place}
    (outside : ¬before.placeFor (layout.stateDirectory pair before.directory) <+: place)
    (different : before.placeFor (layout.sessionFile pair before.directory) ≠ place) :
    after.entryAt? place = before.entryAt? place := by
  rw [clears.session.entries, without, placeFor_congr clears.digests.host, if_neg different,
    clears.digests.entries, FileSystem.cleared, if_neg outside]

theorem entryAt?_digests {place : Place}
    (inside : before.placeFor (layout.stateDirectory pair before.directory) <+: place) :
    after.entryAt? place = none := by
  rw [clears.session.entries, without]
  split
  · rfl
  · rw [clears.digests.entries, FileSystem.cleared, if_pos inside]

include can

theorem keeps_source : Keeps pair.source before after where
  host := clears.host
  wellFormed _ := clears.session.calm.wellFormed
  same place inside := by
    have below : place ≠ [] := by
      rintro rfl
      exact placeFor_ne_nil can.plainSource (List.prefix_nil.mp inside)
    rw [← entryAt?_of_ne_nil _ below, ← entryAt?_of_ne_nil _ below]
    have digests := can.state_source.symm.below (can.below_digests before.directory)
    have session := can.state_source.symm.below (can.below_session before.directory)
    refine clears.entryAt? (fun other => ?_) ?_
    · rcases List.prefix_or_prefix_of_prefix inside other with above | under
      · exact digests.left above
      · exact digests.right under
    · rintro rfl
      exact session.left inside

theorem stored?_eq_none {α : Type} (reader : Reader α) {name : String} (isName : IsName name) :
    stored? reader after ((layout.stateDirectory pair after.directory).join name) = none := by
  have plain := (can.below_digests after.directory).plain
  have directory := directory_congr clears.host
  rw [stored?]
  cases reads : after.read ((layout.stateDirectory pair after.directory).join name) with
  | error fault => rfl
  | ok octets =>
      rw [read_eq_ok clears.session.calm.wellFormed (plain.join isName),
        ← entryAt?_of_ne_nil _ (placeFor_ne_nil (plain.join isName)),
        placeFor_join plain isName.whole, placeFor_congr clears.host, directory,
        clears.entryAt?_digests (List.prefix_append _ _)] at reads
      cases reads.2.1

/-- Clearing leaves the same behind as taking the digests away after an attempt that changed nothing
but outputs and the session. -/
theorem alikeOutside {failed gone : FileSystem}
    (alike : AlikeOutside pair.output (layout.sessionFile pair before.directory) before failed)
    (becomes : Becomes failed gone
      (failed.cleared (failed.placeFor (layout.stateDirectory pair before.directory)))) :
    AlikeOutside pair.output (layout.sessionFile pair before.directory) gone after :=
  ((alike.cleared can.output_digests can.session_digests clears.digests becomes).opened
    (.inr clears.session) (.inl rfl)).symm

end ClearedPair

/-! ## Keeping digests -/

theorem inStep_save (detector : Detector) (pair : RootPair) :
    InStep SameFiles (detector.save pair) := by
  have looks : InStep SameFiles (detector.stateDirectory pair) :=
    InStep.bind (inStep_inspect _) fun _ => InStep.pure _
  refine InStep.bind looks fun directory => InStep.bind (inStep_change _) fun _ => ?_
  cases detector.sourceDigests <;> cases detector.classpathDigest
  · exact InStep.pure _
  · exact InStep.bind (inStep_change _) fun _ => InStep.pure _
  · exact inStep_change _
  · exact InStep.bind (inStep_change _) fun _ => inStep_change _

/-! ## Rebuilding -/

theorem buildOrRebuild_of_ok (detector : Detector) (pair : RootPair) {request : BuildRequest}
    {asked built : World} {report : BuildReport} (builds : Build.compileSources toolchain request asked = .ok report built) :
    buildOrRebuild toolchain detector pair request asked = .ok report built := by
  change EStateM.tryCatch (Build.compileSources toolchain request) _ asked = _
  delta EStateM.tryCatch
  simp only [builds]

theorem buildOrRebuild_of_error {detector : Detector} {request : BuildRequest} {asked failed : World}
    {error : BuildError} (fails : Build.compileSources toolchain request asked = .error error failed)
    (rebuild : error.requiresFullRebuild) :
    buildOrRebuild toolchain detector pair request asked =
      (detector.clear pair >>= fun _ =>
        Build.compileSources toolchain { request with classpathChanged := true })
        { failed with notices := failed.notices ++ [.rebuilding error] } := by
  change EStateM.tryCatch (Build.compileSources toolchain request) _ asked = _
  delta EStateM.tryCatch
  simp only [fails, rebuild, if_true]
  rfl

theorem exists_builtAgain {request : BuildRequest} {states : SourceStates} {other built : World}
    {report : BuildReport}
    (builds : Build.compileSources toolchain { request with classpathChanged := true } world =
      .ok report built) (zero : report.exitCode = 0)
    (overlooks : toolchain.Overlooks request.cacheFile (Build.everything request))
    (present : states.present = request.sources.present)
    (alike : AlikeOutside request.outputRoot request.cacheFile world.files other.files) :
    ∃ builtAgain,
    Build.compileSources toolchain { request with classpathChanged := true, sources := states }
        other = .ok report builtAgain ∧
      Build.EndSame request.cacheFile built.files builtAgain.files := by
  obtain ⟨session, opened, opens, -⟩ := Session.exists_start world alike.left.calm alike.left.cache
  obtain ⟨session', opened', opens', -⟩ :=
    Session.exists_start other alike.right.calm alike.right.cache
  have starts : Build.StartsFull { request with classpathChanged := true } world :=
    ⟨session, opened, opens, .inl rfl⟩
  have starts' : Build.StartsFull { request with classpathChanged := true, sources := states } other :=
    ⟨session', opened', opens', .inl rfl⟩
  have ends : EndAlike _ _
      (Build.compileSources toolchain { request with classpathChanged := true } world)
      (Build.compileSources toolchain { request with classpathChanged := true, sources := states }
        other) := Build.compileSources_alike overlooks present alike starts starts'
  obtain ⟨builtAgain, buildsAgain, -, -, same⟩ := ends.exists_of_ok builds
  exact ⟨builtAgain, buildsAgain, same zero⟩

theorem plain_of_mem_digestsOf {files : FileSystem} {root : Path} {extension : String}
    {contents : List (String × Bytes)} (wellFormed : files.WellFormed) (plain : root.Plain)
    (lists : sourceContents files root extension = .ok contents) {text : String}
    (member : text ∈ digestsOf contents) : Path.Plain ⟨text⟩ := by
  have listed := Lists.of_sourceContents wellFormed plain lists
  obtain ⟨content, there⟩ := mem_digestsOf.mp member
  exact ((listed.member ⟨text⟩ content).mp there).below.plain

theorem exists_askPair_cleared {contents : List (String × Bytes)} {stream : Bytes}
    {cleared : World} {digestsGone : FileSystem} (can : CanRebuild layout pair world.files)
    (clears : ClearedPair layout pair world.files digestsGone cleared.files)
    (recorded : ∀ digests, stored? digestsReader world.files
      ((layout.stateDirectory pair world.files.directory).join sourcesFile) = some digests →
        ∀ text ∈ digests, Path.Plain ⟨text⟩)
    (lists : sourceContents world.files pair.source toolchain.sourceExtension = .ok contents)
    (streams : classpathStream cleared.files classpath = .ok stream)
    (some' : ¬(requestFor layout pair classpath contents stream world.files).sources.present.isEmpty) :
    ∃ states asked, askPair layout toolchain pair classpath cleared =
        .ok (some (detectorFor layout contents stream,
          { requestFor layout pair classpath contents stream world.files with
            classpathChanged := true, sources := states })) asked ∧
      asked.files = cleared.files ∧ states.present =
        (requestFor layout pair classpath contents stream world.files).sources.present := by
  obtain ⟨found, lists', same⟩ := exists_sourceContents can.calm.wellFormed can.plainSource
    (clears.keeps_source can) lists
  have digests : digestsOf found = digestsOf contents := digestsOf_congr
    (pairwise_sourceContents clears.session.calm.wellFormed lists')
    (pairwise_sourceContents can.calm.wellFormed lists) same
  have plain : ∀ text, text ∈ (stored? digestsReader world.files
      ((layout.stateDirectory pair world.files.directory).join sourcesFile)).getD ∅ ∨
      text ∈ digestsOf contents → Path.Plain ⟨text⟩ := by
    rintro text (known | there)
    · cases stored : stored? digestsReader world.files
          ((layout.stateDirectory pair world.files.directory).join sourcesFile) with
      | none => simp [stored] at known
      | some digests => exact recorded digests stored text (by simpa [stored] using known)
    · exact plain_of_mem_digestsOf can.calm.wellFormed can.plainSource lists there
  have present := present_statesBetween plain
  rw [← sources_requestFor layout pair classpath contents stream world.files] at present
  rw [← present] at some'
  have request : requestFor layout pair classpath found stream cleared.files =
      { requestFor layout pair classpath contents stream world.files with
        classpathChanged := true, sources := statesBetween ∅ (digestsOf contents) } := by
    have noClasspath := clears.stored?_eq_none can digestReader
      (by constructor <;> decide : IsName classpathFile)
    have noSources := clears.stored?_eq_none can digestsReader
      (by constructor <;> decide : IsName sourcesFile)
    have changed : decide ((none : Option UInt64) ≠ some (Digest.Xxh3.digest stream)) = true :=
      decide_eq_true (by simp)
    rw [requestFor, noClasspath, noSources, digests, directory_congr clears.host, changed]
    rfl
  have asksFor : (requestFor layout pair classpath found stream cleared.files).sources =
      statesBetween ∅ (digestsOf contents) := congrArg BuildRequest.sources request
  rw [← asksFor] at some'
  obtain ⟨asked, asks, sameFiles⟩ := exists_askPair lists' streams some'
  refine ⟨_, asked, ?_, sameFiles, present⟩
  rw [asks, request, detectorFor, detectorFor, digests]

/-- An invocation that had to build again leaves the same files behind as clearing and then
compiling. -/
theorem compilePair_like_cleared {detector : Detector} {request : BuildRequest}
    {asked failed next : World} {error : BuildError} (can : CanRebuild layout pair world.files)
    (builds : toolchain.BuildsOnly pair.output)
    (overlooks : toolchain.Overlooks request.cacheFile (Build.everything request))
    (recorded : ∀ digests, stored? digestsReader world.files
      ((layout.stateDirectory pair world.files.directory).join sourcesFile) = some digests →
        ∀ text ∈ digests, Path.Plain ⟨text⟩)
    (stays : ∀ cleared, clearPair layout pair world = .ok () cleared →
      classpathStream cleared.files classpath = classpathStream world.files classpath)
    (asks : askPair layout toolchain pair classpath world = .ok (some (detector, request)) asked)
    (fails : Build.compileSources toolchain request asked = .error error failed)
    (rebuild : error.requiresFullRebuild)
    (returns : compilePair layout toolchain pair classpath world = .ok 0 next) :
    ∃ cleared built, clearPair layout pair world = .ok () cleared ∧
      compilePair layout toolchain pair classpath cleared = .ok 0 built ∧
        built.files = next.files := by
  obtain ⟨contents, stream, lists, streams, some', rfl, rfl, sameAsked⟩ := exists_of_askPair asks
  -- What was built again.
  rw [compilePair_eq_ask] at returns
  obtain ⟨_, _, asks', answers⟩ := exists_of_bind_eq_ok returns
  rw [asks] at asks'
  injection asks' with sameAnswer sameWorld
  subst sameAnswer sameWorld
  obtain ⟨report, built, rebuilds, concludes⟩ := exists_of_bind_eq_ok answers
  rw [buildOrRebuild_of_error fails rebuild] at rebuilds
  obtain ⟨_, emptied, clears, compiles⟩ := exists_of_bind_eq_ok rebuilds
  obtain ⟨_, last, finishes, zero⟩ := exists_of_bind_eq_ok concludes
  injection zero with zero sameLast
  subst sameLast
  have good : report.succeeded = true := decide_eq_true zero
  rw [finish, if_pos good] at finishes
  -- Where it started from.
  have alike : AlikeOutside pair.output (layout.sessionFile pair world.files.directory) world.files
      failed.files := by
    have canBuild := can.canBuild
    have alike := Build.alikeOutside_of_fails builds (sameAsked.symm ▸ canBuild) fails rebuild
    rwa [sameAsked] at alike
  have directory := directory_congr alike.host
  have takes := alike.takesDirectory can.digests can.sameBase can.output_digests can.session_digests
  rw [← directory] at takes
  obtain ⟨gone, clears', becomes⟩ := exists_clear (detectorFor layout contents stream)
    { failed with notices := failed.notices ++ [.rebuilding error] } alike.right.calm takes
  rw [clears] at clears'
  injection clears' with _ sameEmptied
  subst sameEmptied
  -- What clearing and compiling does.
  obtain ⟨cleared, digestsGone, clearsPair, clearedPair⟩ := exists_clearPair can
  rw [← stays cleared clearsPair] at streams
  obtain ⟨states, askedAgain, asksAgain, sameAgain, present⟩ :=
    exists_askPair_cleared can clearedPair recorded lists streams some'
  change Becomes failed.files gone (failed.files.cleared (failed.files.placeFor
    (layout.stateDirectory pair failed.files.directory))) at becomes
  rw [directory] at becomes
  have alike := clearedPair.alikeOutside can alike becomes
  rw [← sameAgain] at alike
  obtain ⟨builtAgain, compilesAgain, same⟩ :=
    exists_builtAgain compiles zero overlooks present alike
  have saves := inStep_save (detectorFor layout contents stream) pair built builtAgain same.files
  obtain ⟨final, savesAgain, sameFiles⟩ := saves.exists_of_ok finishes
  refine ⟨cleared, final, clearsPair, ?_, sameFiles⟩
  rw [compilePair_eq_ask]
  have rebuildsAgain := buildOrRebuild_of_ok (detectorFor layout contents stream) pair compilesAgain
  simp only [bind, EStateM.bind, asksAgain, answerPair, rebuildsAgain, finish, good, if_true,
    savesAgain]
  rw [zero]
  rfl

end CommandLine

end AbiBuild
