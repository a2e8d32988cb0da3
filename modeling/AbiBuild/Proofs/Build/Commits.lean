import AbiBuild.Proofs.Build.Language
import AbiBuild.Proofs.Session.Files

/-!
# Taking in what was compiled

When the compiler succeeds, the session takes in the units that were made and is stored.  If that
goes through, what is stored reflects the sources; if not, what was stored before stays or is gone.
-/

namespace AbiBuild

open Files FileSystem Changes SessionAction

variable {language : Language} {toolchain : Toolchain} {layout : CacheLayout} {pair : RootPair}
  {directory : Path} {request : BuildRequest}

structure Ready (layout : CacheLayout) (pair : RootPair) (extension : String)
    (contents : List (String × Bytes)) (files : FileSystem) : Prop where
  wellFormed : files.WellFormed
  disjoint : Disjoint layout pair files
  lists : Lists files pair.source extension contents

structure Stored (language : Language) (layout : CacheLayout) (pair : RootPair) (directory : Path)
    (contents : List (String × Bytes)) (before after : FileSystem) : Prop where
  sources : Keeps pair.source before after
  digests : Keeps layout.digestRoot before after
  session : Sound (language.surfaces contents) → language.Covers contents ∧
    ∃ session : Session, session.Reflects (language.surfaces contents) ∧
      after.Holds (layout.sessionFile pair directory) session.toCacheData.encode

theorem Quiet.stored {first second third : FileSystem} {contents : List (String × Bytes)}
    (quiet : Quiet layout pair directory first second)
    (stored : Stored language layout pair directory contents second third) :
    Stored language layout pair directory contents first third :=
  ⟨Accumulates.trans quiet.sources stored.sources, Accumulates.trans quiet.digests stored.digests,
    stored.session⟩

def Genuine (language : Language) (outputRoot : Path) (extension : String) (sources : List Path)
    (contents : List (String × Bytes)) (files : FileSystem) : Prop :=
  ∀ path ∈ sources, Fits path → ∀ content surface, (path.text, content) ∈ contents →
    language.surface? content = some surface → ∀ unit,
      files.read (Outputs.unitPath outputRoot surface.1.className extension) = .ok unit →
        language.IsUnit content unit

namespace Ready

variable {extension : String} {contents : List (String × Bytes)} {files after : FileSystem}

theorem keeps (ready : Ready layout pair extension contents files)
    (keeps : Keeps pair.source files after) : Ready layout pair extension contents after where
  wellFormed := keeps.wellFormed ready.wellFormed
  disjoint := ready.disjoint.congr keeps.host
  lists := ready.lists.keeps keeps

theorem read_eq_ok (ready : Ready layout pair extension contents files) {path : Path}
    (listed : ∃ content, (path.text, content) ∈ contents) {content : Bytes} :
    files.read path = .ok content ↔ Fits path ∧ (path.text, content) ∈ contents := by
  obtain ⟨old, member⟩ := listed
  have source := (ready.lists.member path old).mp member
  rw [FileSystem.read_eq_ok ready.wellFormed source.below.plain, ready.lists.member path content,
    and_iff_left (ready.lists.readable path old member)]
  refine and_congr_right fun _ => ⟨fun found => ?_, fun source => source.found⟩
  exact ⟨source.below, source.extension, found⟩

theorem surface_of_declares {untouched : List Path}
    (serves : toolchain.Serves language pair.output untouched)
    (ready : Ready layout pair extension contents files) {path : Path} {name : String}
    (listed : ∃ content, (path.text, content) ∈ contents)
    (declares : toolchain.typeDeclaredBy files path = .ok name) :
    ∃ content surface, Fits path ∧ (path.text, content) ∈ contents ∧
      language.surface? content = some surface ∧ surface.1.className = name := by
  obtain ⟨content, surface, reads, found, named⟩ := serves.resolves files path name declares
  obtain ⟨fits, member⟩ := (ready.read_eq_ok listed).mp reads
  exact ⟨content, surface, fits, member, found, named⟩

theorem genuine (ready : Ready layout pair extension contents files) {sources : List Path}
    {outputExtension : String}
    (units : HasUnits language pair.output outputExtension sources files after) :
    Genuine language pair.output outputExtension sources contents after := by
  intro path member fits content surface listed found unit reads
  have before := (ready.read_eq_ok ⟨content, listed⟩).mpr ⟨fits, listed⟩
  obtain ⟨made, readsMade, isUnit⟩ := units path member content surface before found
  rw [reads] at readsMade
  rwa [Except.ok.inj readsMade]

theorem surfaces_of_surfacesAt (ready : Ready layout pair extension contents files)
    {sources : List Path}
    (listed : ∀ path ∈ sources, ∃ content, (path.text, content) ∈ contents) {path : Path}
    {surface : PartitionedAbi} (found : surfacesAt language files sources path = some surface) :
    path ∈ sources ∧ language.surfaces contents path = some surface := by
  rw [surfacesAt, Option.ite_none_right_eq_some] at found
  obtain ⟨member, found⟩ := found
  refine ⟨member, ?_⟩
  obtain ⟨content, reads, found⟩ := Option.bind_eq_some_iff.mp found
  cases result : files.read path with
  | error fault =>
      rw [result] at reads
      cases reads
  | ok other =>
      rw [result] at reads
      obtain rfl := Option.some.inj reads
      have taken := ((ready.read_eq_ok (listed path member)).mp result).2
      rw [Language.surfaces_of_mem ready.lists.distinct taken, found]

theorem sound_surfacesAt (ready : Ready layout pair extension contents files) {sources : List Path}
    (listed : ∀ path ∈ sources, ∃ content, (path.text, content) ∈ contents)
    (sound : Sound (language.surfaces contents)) : Sound (surfacesAt language files sources) := by
  have included : ∀ path surface, surfacesAt language files sources path = some surface →
      language.surfaces contents path = some surface :=
    fun path surface found => (ready.surfaces_of_surfacesAt listed found).2
  refine ⟨?_, fun path surface found => sound.names path surface (included path surface found)⟩
  intro path other first second hfirst hsecond
  exact sound.apart path other first second (included _ _ hfirst) (included _ _ hsecond)

end Ready

theorem Genuine.spares {extension : String} {contents : List (String × Bytes)}
    {sources : List Path} {outputRoot : Path} {before after : FileSystem}
    (genuine : Genuine language outputRoot extension sources contents before)
    (plain : outputRoot.Plain) (whole : '/' ∉ extension.toList)
    (distinct : contents.Pairwise fun first second => first.1 ≠ second.1)
    (sound : Sound (language.surfaces contents)) (wellFormed : before.WellFormed)
    (wellFormedAfter : after.WellFormed) (spares : ∀ path, Spares path before after) :
    Genuine language outputRoot extension sources contents after := by
  intro path member fits content surface listed found unit reads
  refine genuine path member fits content surface listed found unit ?_
  have isTypeName := sound.names path surface (by
    rw [Language.surfaces_of_mem distinct listed, found])
  have below := Outputs.below_unitPath plain isTypeName whole
  exact (spares _).read wellFormed wellFormedAfter below.plain reads

/-! ## Reading the units -/

section TakeIn

variable {contents : List (String × Bytes)} {before after : OpenSession}
  {learned : List (Session.Declaration × SourceAbi)} {untouched : List Path}

def ShowsSurfaces (surfaces : Path → Option PartitionedAbi)
    (learned : List (Session.Declaration × SourceAbi)) : Prop :=
  ∀ entry ∈ learned, ∃ surface, surfaces entry.1.source = some surface ∧
    entry.2.Shows surface.1 ∧ entry.1.name = surface.1.className

theorem ShowsSurfaces.covers (shows : ShowsSurfaces (language.surfaces contents) learned)
    (distinct : contents.Pairwise fun first second => first.1 ≠ second.1)
    (taken : ∀ path : Path, (∃ content, (path.text, content) ∈ contents) →
      ∃ entry ∈ learned, entry.1.source = path) : language.Covers contents := by
  rintro ⟨text, content⟩ listed
  obtain ⟨entry, member, same⟩ := taken ⟨text⟩ ⟨content, listed⟩
  obtain ⟨surface, found, -⟩ := shows entry member
  rw [same, Language.surfaces_of_mem distinct listed] at found
  rw [found]
  rfl

theorem units_of_refreshed (serves : toolchain.Serves language pair.output untouched)
    {sources : List Path}
    (ready : Ready layout pair toolchain.sourceExtension contents before.world.files)
    (sound : Sound (language.surfaces contents))
    (listed : ∀ path ∈ sources, ∃ content, (path.text, content) ∈ contents)
    (clears : Clears pair.output before.world.files after.world.files)
    (genuine : Genuine language pair.output toolchain.outputExtension sources contents
      before.world.files)
    (refreshed : Session.Refreshed toolchain pair.output sources before after learned) :
    ∀ entry ∈ learned, ∃ content surface unit, (entry.1.source.text, content) ∈ contents ∧
      language.surface? content = some surface ∧ surface.1.className = entry.1.name ∧
      after.world.files.read (Outputs.unitPath pair.output surface.1.className
        toolchain.outputExtension) = .ok unit ∧
      language.IsUnit content unit ∧ entry.2.Shows surface.1 := by
  intro entry member
  have source := refreshed.mem_sources member
  obtain ⟨content, surface, fits, taken, found, named⟩ :=
    ready.surface_of_declares serves (listed _ source) (refreshed.declared entry member)
  obtain ⟨unit, reads, shows⟩ := serves.reads _ _ _ (refreshed.surfaces entry member)
  have still := genuine.spares ready.disjoint.plainOutput serves.extension ready.lists.distinct
    sound ready.wellFormed (clears.wellFormed ready.wellFormed) clears.spares
  rw [← named] at reads
  have isUnit := still _ source fits content surface taken found unit reads
  exact ⟨content, surface, unit, taken, found, named, reads, isUnit,
    shows content surface isUnit found⟩

theorem shows_of_refreshed (serves : toolchain.Serves language pair.output untouched)
    {sources : List Path}
    (ready : Ready layout pair toolchain.sourceExtension contents before.world.files)
    (sound : Sound (language.surfaces contents))
    (listed : ∀ path ∈ sources, ∃ content, (path.text, content) ∈ contents)
    (clears : Clears pair.output before.world.files after.world.files)
    (genuine : Genuine language pair.output toolchain.outputExtension sources contents
      before.world.files)
    (refreshed : Session.Refreshed toolchain pair.output sources before after learned) :
    ShowsSurfaces (language.surfaces contents) learned := by
  intro entry member
  obtain ⟨content, surface, unit, taken, found, named, -, -, shows⟩ :=
    units_of_refreshed serves ready sound listed clears genuine refreshed entry member
  exact ⟨surface, by rw [Language.surfaces_of_mem ready.lists.distinct taken, found], shows,
    named.symm⟩

theorem ends_takeIn (serves : toolchain.Serves language pair.output untouched)
    (output : request.outputRoot = pair.output)
    (cacheFile : request.cacheFile = layout.sessionFile pair directory) {sources : PathSet}
    (ready : Ready layout pair toolchain.sourceExtension contents before.world.files)
    (records : before.session.RecordsTypes)
    (reflects : ∀ after learned,
      Session.Refreshed toolchain pair.output sources.toList before after learned →
      Clears pair.output before.world.files after.world.files →
      Sound (language.surfaces contents) → language.Covers contents ∧
        after.session.Reflects (language.surfaces contents)) :
    Ends (do
        Session.refresh toolchain request.outputRoot sources.toList
        Session.persist request.cacheFile) before
      (fun _ next => Stored language layout pair directory contents before.world.files
        next.world.files)
      (fun _ next => Quiet layout pair directory before.world.files next.world.files) := by
  rw [output, ends_bind]
  have disjoint := ready.disjoint
  refine ((Session.ends_refresh toolchain pair.output sources.toList before).and
    (Session.clears_refresh disjoint.plainOutput serves.extension sources.toList before
      ready.wellFormed records)).imp ?_ ?_
  · rintro _ middle ⟨⟨learned, refreshed⟩, clears⟩
    have quiet := disjoint.quiet_of_output directory clears.toWithin
    have still := disjoint.congr clears.host
    refine (Session.ends_persist_files cacheFile still).imp ?_ fun _ _ => Accumulates.trans quiet
    rintro _ next ⟨within, holds⟩
    refine quiet.stored ⟨within.keeps still.session_source,
      within.keeps (CacheLayout.apart_sessionRoot still.plainRoot), fun sound => ?_⟩
    obtain ⟨covers, reflected⟩ := reflects middle learned refreshed clears sound
    exact ⟨covers, middle.session, reflected, holds⟩
  · rintro _ middle ⟨-, clears⟩
    exact disjoint.quiet_of_output directory clears.toWithin

end TakeIn

/-! ## Building everything -/

namespace Build

variable {contents : List (String × Bytes)}

/-- How a build leaves files behind: with a session that reflects the sources, or with what was
stored before if the compiler failed. -/
structure Concludes (language : Language) (layout : CacheLayout) (pair : RootPair)
    (directory : Path) (contents : List (String × Bytes)) (before : FileSystem)
    (report : BuildReport) (after : FileSystem) : Prop where
  good : report.exitCode = 0 → Stored language layout pair directory contents before after
  bad : report.exitCode ≠ 0 → Quiet layout pair directory before after

theorem replaces_all {extension : String}
    {learned : List (Session.Declaration × SourceAbi)}
    (located : Located pair.source extension contents)
    (shows : ShowsSurfaces (language.surfaces contents) learned)
    (all : ∀ path, (∃ content, (path.text, content) ∈ contents) →
      ∃ entry ∈ learned, entry.1.source = path) :
    Session.Replaces (fun _ => none) (language.surfaces contents) [] learned where
  spelled path other known listed same := by
    have first : (language.surfaces contents path).isSome := by simpa using known
    have second : (language.surfaces contents other).isSome := by simpa using listed
    exact (located.plain (located.exists_of_isSome first)).eq_of_location
      (located.plain (located.exists_of_isSome second)) same
  shows := shows
  gone := by simp
  kept path untouched found := by
    obtain ⟨entry, member, same⟩ := all path (located.exists_of_isSome found)
    exact absurd same (untouched entry member)
  missing := nofun
  unseen path surface found untouched := by
    obtain ⟨entry, member, same⟩ := all path (located.exists_of_isSome (by rw [found]; rfl))
    exact absurd same (untouched entry member)

variable {opened : OpenSession} {untouched : List Path}

theorem ends_commit_of (output : request.outputRoot = pair.output) {set : PathSet}
    {done : Unit → OpenSession → Prop} {failed : BuildError → OpenSession → Prop} (unsettled : ∀ error, failed error opened)
    (settled : ∀ declared, redeclared opened.session toolchain opened.world.files
        (request.sources.inState [.removed]) set = .ok declared →
      Ends (Session.removeSources toolchain pair.output
          ((request.sources.inState [.removed]).filter fun source =>
            !wasMoved opened.session declared source)) opened
        (fun _ next => Ends (do
          Session.refresh toolchain request.outputRoot set.toList
          Session.persist request.cacheFile) next done failed) failed) :
    Ends (commit toolchain request set) opened done failed := by
  rw [commit, ends_bind, ends_look]
  cases declares : redeclared opened.session toolchain opened.world.files
      (request.sources.inState [.removed]) set with
  | error error => exact unsettled error
  | ok declared =>
      dsimp only
      have settled := settled declared declares
      rw [← output] at settled
      rw [ends_bind, ends_current, ends_bind]
      exact settled

theorem ends_commitFull (serves : toolchain.Serves language pair.output untouched)
    (output : request.outputRoot = pair.output)
    (cacheFile : request.cacheFile = layout.sessionFile pair directory) {sources : PathSet}
    (ready : Ready layout pair toolchain.sourceExtension contents opened.world.files)
    (all : ∀ path, path ∈ sources.toList ↔ ∃ content, (path.text, content) ∈ contents)
    (genuine : Sound (language.surfaces contents) → Genuine language pair.output
      toolchain.outputExtension sources.toList contents opened.world.files) :
    Ends (commitFull toolchain request sources) opened
      (fun _ next => Stored language layout pair directory contents opened.world.files
        next.world.files)
      (fun _ next => Quiet layout pair directory opened.world.files next.world.files) := by
  have disjoint := ready.disjoint
  rw [commitFull, ends_bind]
  refine ((Session.ends_reset request.cacheFile opened).and
    (Session.moves_reset disjoint.plainRoot cacheFile opened)).imp ?_ ?_
  · rintro _ middle ⟨forgotten, clears⟩
    have clears : Clears layout.sessionRoot opened.world.files middle.world.files := clears
    have quiet := disjoint.quiet_of_clears directory clears
    have still := ready.keeps quiet.sources
    have records : middle.session.RecordsTypes := by
      intro source name recorded
      simp [forgotten, Session.forgetAll, Session.recordedType?] at recorded
    refine (ends_takeIn serves output cacheFile still records ?_).imp
      (fun _ _ => quiet.stored) fun _ _ => Accumulates.trans quiet
    intro after learned refreshed trims sound
    have genuine' := (genuine sound).spares disjoint.plainOutput serves.extension
      ready.lists.distinct sound ready.wellFormed still.wellFormed clears.spares
    have shows := shows_of_refreshed serves still sound (fun path => (all path).mp) trims genuine'
      refreshed
    have taken : ∀ path : Path, (∃ content, (path.text, content) ∈ contents) →
        ∃ entry ∈ learned, entry.1.source = path :=
      fun path listed => refreshed.exists_entry ((all path).mpr listed)
    exact ⟨shows.covers ready.lists.distinct taken, (Session.reflects_forgetAll opened.session).replaced
      (replaces_all ready.lists.located shows taken) sound.apart forgotten refreshed⟩
  · rintro _ middle ⟨-, clears⟩
    exact disjoint.quiet_of_clears directory clears

variable (directory) in
theorem ends_compileAny {world : World}
    (serves : toolchain.Serves language pair.output [pair.source, layout.root])
    (output : request.outputRoot = pair.output)
    (ready : Ready layout pair toolchain.sourceExtension contents world.files)
    (precompiled : PathSet) {sources : PathSet}
    (listed : ∀ path ∈ sources.toList, ∃ content, (path.text, content) ∈ contents) :
    Ends (compileAny toolchain request precompiled sources) world
      (fun exitCode next => Quiet layout pair directory world.files next.files ∧
        (exitCode = 0 → Sound (language.surfaces contents) → Genuine language pair.output
          toolchain.outputExtension sources.toList contents next.files))
      (fun _ next => Quiet layout pair directory world.files next.files) := by
  have quiet : ∀ next : World, (∀ root ∈ [pair.source, layout.root],
      Keeps root world.files next.files) → Quiet layout pair directory world.files next.files :=
    fun next keeps => ready.disjoint.quiet_of_keeps directory (keeps _ (by simp)) (keeps _ (by simp))
  rw [compileAny, ends_ite]
  split
  next empty =>
    rw [← Std.ExtTreeSet.isEmpty_toList, List.isEmpty_iff] at empty
    refine ⟨Accumulates.refl _, fun _ _ => ?_⟩
    intro path member
    rw [empty] at member
    cases member
  next =>
    refine (serves.compiles ⟨request.outputRoot, request.classpath, precompiled, sources⟩ world
      output ready.wellFormed).imp ?_ fun _ next keeps => quiet next keeps
    rintro exitCode next ⟨keeps, units⟩
    exact ⟨quiet next keeps, fun good sound =>
      ready.genuine (units good (ready.sound_surfacesAt listed sound))⟩

variable (directory) in
theorem ends_full_of {done : BuildReport → OpenSession → Prop}
    {failed : BuildError → OpenSession → Prop}
    (serves : toolchain.Serves language pair.output [pair.source, layout.root])
    (output : request.outputRoot = pair.output)
    (ready : Ready layout pair toolchain.sourceExtension contents opened.world.files)
    (all : ∀ path, path ∈ (PathSet.ofList request.sources.present).toList ↔
      ∃ content, (path.text, content) ∈ contents)
    (good : ∀ next : OpenSession,
      Quiet layout pair directory opened.world.files next.world.files →
      (Sound (language.surfaces contents) → Genuine language pair.output toolchain.outputExtension
        (PathSet.ofList request.sources.present).toList contents next.world.files) →
      Ends (commitFull toolchain request (PathSet.ofList request.sources.present)) next
        (fun _ last => done ⟨.full, 0, PathSet.ofList request.sources.present⟩ last) failed)
    (bad : ∀ report next, report.exitCode ≠ 0 →
      Quiet layout pair directory opened.world.files next.world.files → done report next)
    (fails : ∀ error next,
      Quiet layout pair directory opened.world.files next.world.files → failed error next) :
    Ends (full toolchain request) opened done failed := by
  have plain := ready.disjoint.plainOutput
  have recreates : Moves (OnOpenFiles (Within pair.output))
      (outside (BuildAction.change (recreateDirectory request.outputRoot))) := by
    rw [output]
    exact moves_outside (moves_change (moves_recreateDirectory plain))
  rw [full, ends_bind]
  refine (recreates opened).imp ?_ fun error next within =>
    fails error next (ready.disjoint.quiet_of_output directory within)
  intro _ cleared within
  have cleans := ready.disjoint.quiet_of_output directory within
  refine ends_compiled ((ends_compileAny directory serves output (ready.keeps cleans.sources) ∅
    fun path => (all path).mp).imp (fun _ _ => id)
      fun error _ quiet => fails error _ (Accumulates.trans cleans quiet)) ?_ ?_
  · rintro next - ⟨quiet, genuine⟩
    exact good next (Accumulates.trans cleans quiet) (genuine rfl)
  · rintro exitCode world notices failing ⟨quiet, -⟩
    exact bad _ _ failing (Accumulates.trans cleans quiet)

theorem ends_full (serves : toolchain.Serves language pair.output [pair.source, layout.root])
    (output : request.outputRoot = pair.output)
    (cacheFile : request.cacheFile = layout.sessionFile pair directory)
    (ready : Ready layout pair toolchain.sourceExtension contents opened.world.files)
    (present : ∀ path, path ∈ request.sources.present ↔
      ∃ content, (path.text, content) ∈ contents) :
    Ends (full toolchain request) opened
      (fun report next => Concludes language layout pair directory contents opened.world.files
        report next.world.files)
      (fun _ next => Quiet layout pair directory opened.world.files next.world.files) := by
  have all := ready.lists.located.mem_toList_ofList present
  refine ends_full_of directory serves output ready all ?_
    (fun _ _ bad quiet => ⟨fun good => absurd good bad, fun _ => quiet⟩) fun _ _ quiet => quiet
  intro next quiet genuine
  refine (ends_commitFull serves output cacheFile (ready.keeps quiet.sources) all genuine).imp ?_
    fun _ _ => Accumulates.trans quiet
  intro _ last stored
  exact ⟨fun _ => quiet.stored stored, fun bad => absurd rfl bad⟩

end Build

end AbiBuild
