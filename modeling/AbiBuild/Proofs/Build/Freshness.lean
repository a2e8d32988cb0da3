import AbiBuild.Proofs.Build.Units

/-!
# Outputs of a good build

After a build that succeeds every source has a unit of what it holds.  Either the unit was made in
this build, or neither the source nor the unit has changed since the build before.
-/

namespace AbiBuild

open Files FileSystem Changes SessionAction

variable {language : Language} {toolchain : Toolchain} {layout : CacheLayout} {pair : RootPair}
  {directory : Path} {request : BuildRequest} {contents before now : List (String × Bytes)}
  {content : Bytes} {untouched : List Path}

def HasUnit (language : Language) (outputRoot : Path) (extension : String) (content : Bytes)
    (files : FileSystem) : Prop :=
  ∀ surface, language.surface? content = some surface → IsTypeName surface.1.className ∧ ∃ unit,
    files.read (Outputs.unitPath outputRoot surface.1.className extension) = .ok unit ∧
      language.IsUnit content unit

def Flat (surfaces : Path → Option PartitionedAbi) : Prop :=
  ∀ path surface, surfaces path = some surface → '$' ∉ surface.1.className.toList

theorem HasUnit.leaves {outputRoot : Path} {extension : String} {files after : FileSystem}
    (has : HasUnit language outputRoot extension content files) (plain : outputRoot.Plain)
    (whole : '/' ∉ extension.toList) (wellFormed : files.WellFormed)
    (leaves : ∀ path, Below outputRoot path → Leaves path files after) :
    HasUnit language outputRoot extension content after := by
  intro surface found
  obtain ⟨isTypeName, unit, reads, isUnit⟩ := has surface found
  have below := Outputs.below_unitPath plain isTypeName whole
  exact ⟨isTypeName, unit, (leaves _ below).read wellFormed below.plain reads, isUnit⟩

/-! ## Units that are made -/

section Made

variable {opened : OpenSession} {path : Path}

theorem ends_persist_outputs {cacheFile : Path}
    (named : cacheFile = layout.sessionFile pair directory)
    (disjoint : Disjoint layout pair opened.world.files) :
    Ends (Session.persist cacheFile) opened
      (fun _ next => Keeps pair.output opened.world.files next.world.files) (fun _ _ => True) := by
  have below := CacheLayout.below_sessionRoot disjoint.plainRoot
  exact (Session.ends_persist_files named disjoint).imp
    (fun _ _ stored => stored.1.keeps (disjoint.output_state.below below).symm) fun _ _ _ => trivial

theorem ends_takeIn_made (serves : toolchain.Serves language pair.output untouched)
    (output : request.outputRoot = pair.output)
    (cacheFile : request.cacheFile = layout.sessionFile pair directory) {sources : PathSet}
    (ready : Ready layout pair toolchain.sourceExtension contents opened.world.files)
    (records : opened.session.RecordsTypes) (sound : Sound (language.surfaces contents))
    (listed : ∀ path ∈ sources.toList, ∃ content, (path.text, content) ∈ contents)
    (genuine : Genuine language pair.output toolchain.outputExtension sources.toList contents
      opened.world.files) (member : path ∈ sources.toList)
    (taken : (path.text, content) ∈ contents) :
    Ends (do
        Session.refresh toolchain request.outputRoot sources.toList
        Session.persist request.cacheFile) opened
      (fun _ next => HasUnit language pair.output toolchain.outputExtension content
        next.world.files)
      (fun _ _ => True) := by
  have disjoint := ready.disjoint
  have plain := disjoint.plainOutput
  rw [output, ends_bind]
  refine ((Session.ends_refresh toolchain pair.output sources.toList opened).and
    (Session.clears_refresh plain serves.extension sources.toList opened ready.wellFormed
      records)).imp ?_ fun _ _ _ => trivial
  rintro _ middle ⟨⟨learned, refreshed⟩, clears⟩
  refine (ends_persist_outputs cacheFile (disjoint.congr clears.host)).imp ?_
    fun _ _ _ => trivial
  intro _ next keeps
  have units := units_of_refreshed serves ready sound listed clears genuine refreshed
  obtain ⟨entry, entered, rfl⟩ := refreshed.exists_entry member
  obtain ⟨content', surface, unit, taken', found, -, reads, isUnit, -⟩ := units entry entered
  obtain rfl := eq_of_mem_contents ready.lists.distinct taken taken'
  have made : HasUnit language pair.output toolchain.outputExtension content
      middle.world.files := by
    intro surface' found'
    obtain rfl := Option.some.inj (found.symm.trans found')
    refine ⟨sound.names entry.1.source surface ?_, unit, reads, isUnit⟩
    rw [Language.surfaces_of_mem ready.lists.distinct taken, found]
  exact made.leaves plain serves.extension (clears.wellFormed ready.wellFormed)
    fun path below => keeps.leaves below

end Made

namespace Build

variable {opened : OpenSession} {path : Path}

/-! ## Building everything -/

theorem ends_commitFull_unit (serves : toolchain.Serves language pair.output untouched)
    (output : request.outputRoot = pair.output)
    (cacheFile : request.cacheFile = layout.sessionFile pair directory) {sources : PathSet}
    (ready : Ready layout pair toolchain.sourceExtension contents opened.world.files)
    (all : ∀ path, path ∈ sources.toList ↔ ∃ content, (path.text, content) ∈ contents)
    (sound : Sound (language.surfaces contents))
    (genuine : Genuine language pair.output toolchain.outputExtension sources.toList contents
      opened.world.files) (taken : (path.text, content) ∈ contents) :
    Ends (commitFull toolchain request sources) opened
      (fun _ next => HasUnit language pair.output toolchain.outputExtension content
        next.world.files)
      (fun _ _ => True) := by
  have disjoint := ready.disjoint
  rw [commitFull, ends_bind]
  refine ((Session.ends_reset request.cacheFile opened).and
    (Session.moves_reset disjoint.plainRoot cacheFile opened)).imp ?_ fun _ _ _ => trivial
  rintro _ middle ⟨forgotten, clears⟩
  have clears : Clears layout.sessionRoot opened.world.files middle.world.files := clears
  have still := ready.keeps (disjoint.quiet_of_clears directory clears).sources
  have records : middle.session.RecordsTypes := by
    intro source name recorded
    simp [forgotten, Session.forgetAll, Session.recordedType?] at recorded
  exact ends_takeIn_made serves output cacheFile still records sound (fun path => (all path).mp)
    (genuine.spares disjoint.plainOutput serves.extension ready.lists.distinct sound
      ready.wellFormed still.wellFormed clears.spares) ((all path).mpr ⟨content, taken⟩) taken

theorem ends_full_unit
    (serves : toolchain.Serves language pair.output [pair.source, layout.root])
    (output : request.outputRoot = pair.output)
    (cacheFile : request.cacheFile = layout.sessionFile pair directory)
    (ready : Ready layout pair toolchain.sourceExtension contents opened.world.files)
    (present : ∀ path, path ∈ request.sources.present ↔
      ∃ content, (path.text, content) ∈ contents) (sound : Sound (language.surfaces contents))
    (taken : (path.text, content) ∈ contents) :
    Ends (full toolchain request) opened
      (fun report next => report.exitCode = 0 → HasUnit language pair.output
        toolchain.outputExtension content next.world.files)
      (fun _ _ => True) := by
  have all := ready.lists.located.mem_toList_ofList present
  refine ends_full_of directory serves output ready all ?_
    (fun _ _ bad _ good => absurd good bad) fun _ _ _ => trivial
  intro next quiet genuine
  exact (ends_commitFull_unit serves output cacheFile (ready.keeps quiet.sources) all sound
    (genuine sound) taken).imp (fun _ _ made _ => made) fun _ _ _ => trivial

/-! ## Building what changed -/

theorem Follows.recordsOthers {session : Session} {sources : SourceStates} {files : FileSystem}
    {surface : PartitionedAbi} {others : List Path}
    (follows : Follows language toolchain layout pair before now session sources files)
    (found : language.surfaces before path = some surface)
    (different : ∀ source ∈ others, source ≠ path)
    (known : ∀ source ∈ others, (∃ content, (source.text, content) ∈ before) ∨
      ∃ content, (source.text, content) ∈ now) :
    session.RecordsOthers others surface.1.className := by
  intro source member name recorded
  refine ⟨follows.records source name recorded, ?_⟩
  rintro rfl
  obtain ⟨other, foundOther, named⟩ :=
    (follows.recordedType?_eq_some_iff (known source member)).mp recorded
  have first := (follows.reflects.classes _ _).mpr ⟨other, foundOther, named⟩
  have second := (follows.reflects.classes _ _).mpr ⟨surface, found, rfl⟩
  exact different source member (Option.some.inj (first.symm.trans second))

section Kept

variable {surface : PartitionedAbi} {unit : Bytes}

theorem ends_compileAny_keeps {world : World}
    (others : toolchain.SparesOthers language pair.output)
    (output : request.outputRoot = pair.output)
    (ready : Ready layout pair toolchain.sourceExtension contents world.files)
    (precompiled : PathSet) {sources : PathSet}
    (listed : ∀ path ∈ sources.toList, ∃ content, (path.text, content) ∈ contents)
    (sound : Sound (language.surfaces contents))
    (found : language.surfaces contents path = some surface)
    (outer : '$' ∉ surface.1.className.toList) (missing : path ∉ sources.toList)
    (reads : world.files.read (Outputs.unitPath pair.output surface.1.className
      toolchain.outputExtension) = .ok unit) :
    Ends (compileAny toolchain request precompiled sources) world
      (fun exitCode next => exitCode = 0 → next.files.read (Outputs.unitPath pair.output
        surface.1.className toolchain.outputExtension) = .ok unit)
      (fun _ _ => True) := by
  rw [compileAny, ends_ite]
  split
  · exact fun _ => reads
  · refine others.compiles ⟨request.outputRoot, request.classpath, precompiled, sources⟩ world
      output ready.wellFormed (ready.sound_surfacesAt listed sound) _
      (sound.names path surface found) outer ?_ unit reads
    intro other surface' found' same
    obtain ⟨member, listed'⟩ := ready.surfaces_of_surfacesAt listed found'
    rw [sound.apart _ _ _ _ listed' found same] at member
    exact missing member

theorem ends_takeIn_leaves (output : request.outputRoot = pair.output)
    (cacheFile : request.cacheFile = layout.sessionFile pair directory) {sources : PathSet}
    {name : String} (disjoint : Disjoint layout pair opened.world.files)
    (wellFormed : opened.world.files.WellFormed)
    (outer : Session.Outer pair.output toolchain.outputExtension name)
    (others : opened.session.RecordsOthers sources.toList name) :
    Ends (do
        Session.refresh toolchain request.outputRoot sources.toList
        Session.persist request.cacheFile) opened
      (fun _ next => Leaves (Outputs.unitPath pair.output name toolchain.outputExtension)
        opened.world.files next.world.files)
      (fun _ _ => True) := by
  rw [output, ends_bind]
  refine (Session.leaves_refresh outer.plain outer.whole wellFormed
    fun source member name recorded _ => others.foreign outer member recorded).imp ?_
      fun _ _ _ => trivial
  intro _ middle leaves
  refine (ends_persist_outputs cacheFile (disjoint.congr leaves.host)).imp ?_
    fun _ _ _ => trivial
  intro _ next keeps
  exact Accumulates.trans leaves
    (keeps.leaves (Outputs.below_unitPath outer.plain outer.isTypeName outer.whole))

end Kept

theorem ends_commit_leaves (output : request.outputRoot = pair.output)
    (cacheFile : request.cacheFile = layout.sessionFile pair directory) {set : PathSet}
    {name : String} (disjoint : Disjoint layout pair opened.world.files)
    (wellFormed : opened.world.files.WellFormed)
    (outer : Session.Outer pair.output toolchain.outputExtension name)
    (removed : opened.session.RecordsOthers (request.sources.inState [.removed]) name)
    (compiled : opened.session.RecordsOthers set.toList name) :
    Ends (commit toolchain request set) opened
      (fun _ next => Leaves (Outputs.unitPath pair.output name toolchain.outputExtension)
        opened.world.files next.world.files)
      (fun _ _ => True) := by
  refine ends_commit_of output (fun _ => trivial) fun declared _ =>
    (Session.passes_removeSources outer.plain outer.whole wellFormed
      fun source member name recorded =>
        removed.foreign outer (List.mem_of_mem_filter member) recorded).imp ?_ fun _ _ _ => trivial
  intro _ middle passes
  refine (ends_takeIn_leaves output cacheFile (disjoint.congr passes.files.host)
    (passes.files.wellFormed wellFormed) outer ?_).imp
      (fun _ _ => Accumulates.trans passes.files) fun _ _ _ => trivial
  exact fun source member name recorded =>
    compiled source member name (passes.records source name recorded)

theorem ends_commit_made (serves : toolchain.Serves language pair.output untouched)
    (output : request.outputRoot = pair.output)
    (cacheFile : request.cacheFile = layout.sessionFile pair directory) {files : FileSystem}
    (follows : Follows language toolchain layout pair before now opened.session request.sources
      files) {set : PathSet}
    (computes : recompileSet opened.session toolchain files request.sources = .ok set)
    (ready : Ready layout pair toolchain.sourceExtension now opened.world.files)
    (sound : Sound (language.surfaces now))
    (genuine : Genuine language pair.output toolchain.outputExtension set.toList now
      opened.world.files) (member : path ∈ set.toList) (taken : (path.text, content) ∈ now) :
    Ends (commit toolchain request set) opened
      (fun _ next => HasUnit language pair.output toolchain.outputExtension content
        next.world.files)
      (fun _ _ => True) := by
  have disjoint := ready.disjoint
  have plain := disjoint.plainOutput
  refine ends_commit_of output (fun _ => trivial) fun declared _ =>
    (Session.trims_removeSources plain serves.extension _ opened ready.wellFormed
      follows.records).imp ?_ fun _ _ _ => trivial
  intro _ middle trims
  have still := ready.keeps (disjoint.quiet_of_output directory trims.files.toWithin).sources
  exact ends_takeIn_made serves output cacheFile still (trims.records follows.records) sound
    (fun path => follows.listed_of_mem_recompileSet computes)
    (genuine.spares plain serves.extension ready.lists.distinct sound
      ready.wellFormed still.wellFormed trims.files.spares) member taken

theorem ends_incremental_of_commit {found : Plan} {holds : OpenSession → Prop}
    (plans : plan opened.session toolchain opened.world.files request = .ok found)
    (commits : Ends (compileAny toolchain request found.precompiled found.recompile) opened.world
      (fun exitCode next => exitCode = 0 → ∀ middle : OpenSession,
        middle.session = opened.session → middle.world = next →
          Ends (commit toolchain request found.recompile) middle (fun _ last => holds last)
            (fun _ _ => True))
      (fun _ _ => True)) :
    Ends (incremental toolchain request) opened
      (fun report next => report.exitCode = 0 → holds next) (fun _ _ => True) := by
  rw [incremental, ends_bind, ends_look, plans]
  refine ends_compiled (commits.imp (fun _ _ => id) fun _ _ => id) ?_ ?_
  · intro middle same commits
    exact (commits rfl middle same rfl).imp (fun _ _ holds _ => holds) fun _ _ _ => trivial
  · exact fun _ _ _ bad _ good => absurd good bad

theorem ends_commit_kept (others : toolchain.SparesOthers language pair.output)
    (serves : toolchain.Serves language pair.output untouched)
    (output : request.outputRoot = pair.output)
    (cacheFile : request.cacheFile = layout.sessionFile pair directory) {files : FileSystem}
    (follows : Follows language toolchain layout pair before now opened.session request.sources
      files) {set : PathSet}
    (computes : recompileSet opened.session toolchain files request.sources = .ok set)
    (ready : Ready layout pair toolchain.sourceExtension now opened.world.files)
    (sound : Sound (language.surfaces now)) {surface : PartitionedAbi} {unit : Bytes}
    (stands : StandsBetween before now path.text .notChanged)
    (found : language.surfaces now path = some surface)
    (outer : '$' ∉ surface.1.className.toList) (missing : path ∉ set.toList)
    (reads : opened.world.files.read (Outputs.unitPath pair.output surface.1.className
      toolchain.outputExtension) = .ok unit) :
    Ends (commit toolchain request set) opened
      (fun _ next => next.world.files.read (Outputs.unitPath pair.output surface.1.className
        toolchain.outputExtension) = .ok unit)
      (fun _ _ => True) := by
  have plain := ready.disjoint.plainOutput
  have isTypeName := sound.names path surface found
  cases stands with
  | notChanged known present =>
      have was : language.surfaces before path = some surface := by
        rw [Follows.surfaces_eq language follows.located ready.lists.located known present, found]
      have removed : ∀ source ∈ request.sources.inState [.removed],
          StandsBetween before now source.text .removed := by
        intro source member
        obtain ⟨state, wanted, listed⟩ := SourceStates.mem_inState.mp member
        obtain rfl := List.mem_singleton.mp wanted
        exact (follows.states source .removed).mp listed
      have othersRemoved : opened.session.RecordsOthers (request.sources.inState [.removed])
          surface.1.className := by
        refine follows.recordsOthers was ?_ ?_
        · rintro source member rfl
          cases removed source member with
          | removed _ gone => exact gone _ present
        · intro source member
          cases removed source member with
          | removed known _ => exact .inl ⟨_, known⟩
      have othersCompiled : opened.session.RecordsOthers set.toList surface.1.className := by
        refine follows.recordsOthers was ?_ ?_
        · rintro source member rfl
          exact missing member
        · exact fun source member => .inr (follows.listed_of_mem_recompileSet computes member)
      refine (ends_commit_leaves output cacheFile ready.disjoint ready.wellFormed
        ⟨plain, isTypeName, serves.extension, outer, others.outer⟩ othersRemoved
        othersCompiled).imp ?_ fun _ _ _ => trivial
      intro _ next leaves
      exact leaves.read ready.wellFormed
        (Outputs.below_unitPath plain isTypeName serves.extension).plain reads

theorem ends_incremental_unit
    (serves : toolchain.Serves language pair.output [pair.source, layout.root])
    (others : toolchain.SparesOthers language pair.output)
    (output : request.outputRoot = pair.output)
    (cacheFile : request.cacheFile = layout.sessionFile pair directory)
    (follows : Follows language toolchain layout pair before now opened.session request.sources
      opened.world.files)
    (sound : Sound (language.surfaces now)) (flat : Flat (language.surfaces now))
    (kept : ∀ source ∈ before, HasUnit language pair.output toolchain.outputExtension source.2
      opened.world.files) (taken : (path.text, content) ∈ now) :
    Ends (incremental toolchain request) opened
      (fun report next => report.exitCode = 0 → HasUnit language pair.output
        toolchain.outputExtension content next.world.files)
      (fun _ _ => True) := by
  have ready := follows.ready
  cases plans : plan opened.session toolchain opened.world.files request with
  | error error =>
      rw [incremental, ends_bind, ends_look, plans]
      trivial
  | ok found =>
      obtain ⟨set, computes, -⟩ := bind_eq_ok.mp plans
      obtain rfl := recompile_of_plan computes plans
      have listed : ∀ path ∈ found.recompile.toList, ∃ content, (path.text, content) ∈ now :=
        fun path => follows.listed_of_mem_recompileSet computes
      have compiles := ends_compileAny directory serves output ready found.precompiled listed
      by_cases member : path ∈ found.recompile
      · refine ends_incremental_of_commit plans (compiles.imp ?_ fun _ _ _ => trivial)
        rintro exitCode _ ⟨quiet, genuine⟩ good middle same rfl
        rw [← same] at follows computes
        exact ends_commit_made serves output cacheFile follows computes (ready.keeps quiet.sources)
          sound (genuine good sound) (follows.mem_toList_of_mem computes ⟨content, taken⟩ member)
          taken
      · have stands := follows.notChanged_of_not_mem serves sound computes ⟨content, taken⟩ member
        have missing : path ∉ found.recompile.toList := fun listed =>
          member ((PathSet.exists_mem_toList _ _).mpr ⟨path, listed, rfl⟩)
        cases found' : language.surface? content with
        | none =>
            refine (ends_true _ _).imp (fun _ _ _ good surface found => ?_) fun _ _ _ => trivial
            rw [found'] at found
            cases found
        | some surface =>
            have here : language.surfaces now path = some surface := by
              rw [Language.surfaces_of_mem ready.lists.distinct taken, found']
            have had : HasUnit language pair.output toolchain.outputExtension content
                opened.world.files := by
              cases stands with
              | notChanged known present =>
                  rw [eq_of_mem_contents ready.lists.distinct taken present]
                  exact kept _ known
            obtain ⟨isTypeName, unit, reads, isUnit⟩ := had surface found'
            refine ends_incremental_of_commit plans ((compiles.and (ends_compileAny_keeps others
              output ready found.precompiled listed sound here (flat path surface here) missing
              reads)).imp ?_ fun _ _ _ => trivial)
            rintro exitCode _ ⟨⟨quiet, -⟩, stays⟩ good middle same rfl
            rw [← same] at follows computes
            refine (ends_commit_kept others serves output cacheFile follows computes
              (ready.keeps quiet.sources) sound stands here (flat path surface here) missing
              (stays good)).imp ?_ fun _ _ _ => trivial
            intro _ next reads surface' found
            obtain rfl := Option.some.inj (found'.symm.trans found)
            exact ⟨isTypeName, unit, reads, isUnit⟩

/-! ## The choice -/

/-- A build that succeeds leaves a unit of every source.  If it does not start over, the units of
the sources as they were have to be there, unless there is no session to go on from. -/
theorem ends_compileSources_unit {world : World}
    (serves : toolchain.Serves language pair.output [pair.source, layout.root])
    (others : toolchain.SparesOthers language pair.output)
    (output : request.outputRoot = pair.output)
    (cacheFile : request.cacheFile = layout.sessionFile pair directory)
    (ready : Ready layout pair toolchain.sourceExtension now world.files)
    (located : Located pair.source toolchain.sourceExtension before)
    (states : ∀ path state, (path, state) ∈ request.sources.toList ↔
      StandsBetween before now path.text state)
    (recalls : request.classpathChanged = false →
      Recalls language layout pair directory before world.files)
    (sound : Sound (language.surfaces now)) (flat : Flat (language.surfaces now))
    (kept : request.classpathChanged = false →
      (∃ octets, world.files.read (layout.sessionFile pair directory) = .ok octets) →
      ∀ source ∈ before, HasUnit language pair.output toolchain.outputExtension source.2
        world.files) (taken : (path.text, content) ∈ now) :
    Ends (compileSources toolchain request) world
      (fun report next => report.exitCode = 0 → HasUnit language pair.output
        toolchain.outputExtension content next.files)
      (fun _ _ => True) := by
  refine ends_compileSources_of cacheFile ready.disjoint states recalls ?_ ?_ ?_
  · intro opened quiet
    exact ends_full_unit serves output cacheFile (ready.keeps quiet.sources)
      (mem_present_iff states) sound taken
  · intro unchanged upToDate stored _ reads _
    exact kept unchanged ⟨_, reads⟩ _
      (mem_before_of_isUpToDate ready.lists.distinct states upToDate taken)
  · rintro unchanged reads opened rfl loaded
    exact ends_incremental_unit serves others output cacheFile
      ⟨ready, located, (recalls unchanged).covers, loaded, (recalls unchanged).names, states⟩
      sound flat (kept unchanged reads) taken

end Build

end AbiBuild
