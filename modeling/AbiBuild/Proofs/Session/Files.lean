import AbiBuild.Proofs.Changes.CacheLayout
import AbiBuild.Proofs.Session.Paired

/-!
# What the actions of a session do to files

Forgetting types removes outputs and does nothing else.  Opening, resetting and storing a session
leave sources and digests alone, and the cache file changes only when the session is stored.
-/

namespace AbiBuild

open Files FileSystem SessionAction

/-! ## Apart from each other -/

structure Disjoint (layout : CacheLayout) (pair : RootPair) (files : FileSystem) : Prop where
  plainSource : pair.source.Plain
  plainOutput : pair.output.Plain
  plainRoot : layout.root.Plain
  output_source : Apart files pair.output pair.source
  output_state : Apart files pair.output layout.root
  state_source : Apart files layout.root pair.source

structure Quiet (layout : CacheLayout) (pair : RootPair) (directory : Path)
    (before after : FileSystem) : Prop where
  sources : Keeps pair.source before after
  digests : Keeps layout.digestRoot before after
  session : Spares (layout.sessionFile pair directory) before after

instance (layout : CacheLayout) (pair : RootPair) (directory : Path) :
    Accumulates (Quiet layout pair directory) where
  refl files := ⟨Accumulates.refl files, Accumulates.refl files, Accumulates.refl files⟩
  trans first second := ⟨Accumulates.trans first.sources second.sources,
    Accumulates.trans first.digests second.digests, Accumulates.trans first.session second.session⟩

variable {layout : CacheLayout} {pair : RootPair} {directory : Path}

namespace Disjoint

variable {before after : FileSystem}

theorem congr (same : after.host = before.host)
    (disjoint : Disjoint layout pair before) : Disjoint layout pair after where
  plainSource := disjoint.plainSource
  plainOutput := disjoint.plainOutput
  plainRoot := disjoint.plainRoot
  output_source := disjoint.output_source.congr same
  output_state := disjoint.output_state.congr same
  state_source := disjoint.state_source.congr same

theorem quiet_of_keeps (disjoint : Disjoint layout pair before) (directory : Path)
    (sources : Keeps pair.source before after) (state : Keeps layout.root before after) :
    Quiet layout pair directory before after where
  sources := sources
  digests := state.mono (CacheLayout.below_digestRoot disjoint.plainRoot)
  session := (state.mono (CacheLayout.below_sessionRoot disjoint.plainRoot)).spares
    (CacheLayout.below_sessionFile disjoint.plainRoot pair directory)

theorem quiet_of_output (disjoint : Disjoint layout pair before) (directory : Path)
    (within : Within pair.output before after) : Quiet layout pair directory before after :=
  disjoint.quiet_of_keeps directory (within.keeps disjoint.output_source)
    (within.keeps disjoint.output_state)

theorem session_source (disjoint : Disjoint layout pair before) :
    Apart before layout.sessionRoot pair.source :=
  (disjoint.state_source.symm.below (CacheLayout.below_sessionRoot disjoint.plainRoot)).symm

theorem quiet_of_session (disjoint : Disjoint layout pair before)
    (within : Within layout.sessionRoot before after)
    (spares : Spares (layout.sessionFile pair directory) before after) :
    Quiet layout pair directory before after where
  sources := within.keeps disjoint.session_source
  digests := within.keeps (CacheLayout.apart_sessionRoot disjoint.plainRoot)
  session := spares

theorem quiet_of_clears (disjoint : Disjoint layout pair before) (directory : Path)
    (clears : Clears layout.sessionRoot before after) :
    Quiet layout pair directory before after :=
  disjoint.quiet_of_session clears.toWithin (clears.spares _)

end Disjoint

namespace Session

/-! ## Forgetting types -/

def RecordsTypes (session : Session) : Prop :=
  ∀ source name, session.recordedType? source = some name → IsTypeName name

theorem RecordsTypes.withoutSource {session : Session} (records : session.RecordsTypes)
    (source : Path) : (session.withoutSource source).RecordsTypes := by
  intro other name recorded
  rw [recordedType?, getElem?_sourceToClass_withoutSource] at recorded
  split at recorded
  next => cases recorded
  next => exact records other name recorded

section Forget

variable {toolchain : Toolchain} {outputRoot : Path}

/-- From one open session to another outputs are removed, and types stay fit to have units.  Where
the host is honest about what is missing and lets the outputs be read, no output of a forgotten type is
left. -/
structure Trims (toolchain : Toolchain) (outputRoot : Path) (opened next : OpenSession) : Prop where
  files : Clears outputRoot opened.world.files next.world.files
  refusals : RefusesLess opened.world.files next.world.files
  records : opened.session.RecordsTypes → next.session.RecordsTypes
  gone : some .notFound ∉ opened.world.files.refusals → opened.world.files.LegibleBelow outputRoot →
    ∀ name ∈ opened.session.classToSource, name ∉ next.session.classToSource →
      ∀ path, Outputs.IsOutput outputRoot name toolchain.outputExtension path →
        next.world.files.isFile path = false

instance (toolchain : Toolchain) (outputRoot : Path) : Accumulates (Trims toolchain outputRoot) where
  refl opened := ⟨Accumulates.refl opened.world.files, Accumulates.refl opened.world.files, id,
    fun _ _ _ known unknown => absurd known unknown⟩
  trans {first second third} before after := by
    refine ⟨Accumulates.trans before.files after.files,
      Accumulates.trans before.refusals after.refusals, after.records ∘ before.records, ?_⟩
    intro honest legible name known unknown path isOutput
    by_cases still : name ∈ second.session.classToSource
    · exact after.gone (fun refused => honest (before.refusals refused))
        (legible.congr before.files.host) name still unknown path isOutput
    · exact after.files.isFile (before.gone honest legible name known still path isOutput)

theorem trims_forgetClass (plain : outputRoot.Plain) (whole : '/' ∉ toolchain.outputExtension.toList)
    {name : String} (isTypeName : IsTypeName name) (source : Path) (opened : OpenSession)
    (wellFormed : opened.world.files.WellFormed) :
    Ends (forgetClass toolchain outputRoot name source) opened
      (fun _ next => Trims toolchain outputRoot opened next)
      (fun _ next => Trims toolchain outputRoot opened next) := by
  have deletes := ((Outputs.ends_delete wellFormed plain isTypeName whole).and
    (Outputs.moves_delete_refusesLess outputRoot name toolchain.outputExtension
      opened.world.files)).and (Ends.of_imp fun willing : some .notFound ∉ opened.world.files.refusals ∧
        opened.world.files.LegibleBelow outputRoot =>
          Outputs.ends_delete_gone wellFormed willing.2 plain isTypeName whole willing.1)
  refine ends_forgetClass_of (fun _ => Accumulates.refl opened) fun _ => deletes.imp ?_ ?_
  · rintro _ files ⟨⟨clears, less⟩, gone⟩
    refine ⟨clears, less, fun records source name => ?_, ?_⟩
    · rw [recordedType?, sourceToClass_withoutClass]
      exact records source name
    · intro honest legible other known unknown path isOutput
      obtain rfl : name = other := by
        by_contra different
        refine unknown ?_
        rw [Std.ExtTreeMap.mem_iff_isSome_getElem?] at known ⊢
        rwa [getElem?_classToSource_withoutClass, if_neg different]
      exact gone ⟨honest, legible⟩ path isOutput
  · rintro _ files ⟨⟨clears, less⟩, -⟩
    exact ⟨clears, less, id, fun _ _ _ known unknown => absurd known unknown⟩

theorem trims_forM {α : Type} {step : α → SessionAction PUnit} {opened : OpenSession}
    (wellFormed : opened.world.files.WellFormed) (records : opened.session.RecordsTypes)
    (each : ∀ value next, next.world.files.WellFormed → next.session.RecordsTypes →
      Ends (step value) next (fun _ last => Trims toolchain outputRoot next last)
        (fun _ last => Trims toolchain outputRoot next last)) (values : List α) :
    Ends (values.forM step) opened (fun _ next => Trims toolchain outputRoot opened next)
      (fun _ next => Trims toolchain outputRoot opened next) := by
  refine Ends.forM (fun _ next => Trims toolchain outputRoot opened next) ?_ values opened
    (Accumulates.refl opened)
  intro value rest next trims
  exact (each value next (trims.files.wellFormed wellFormed) (trims.records records)).imp
    (fun _ _ => Accumulates.trans trims) fun _ _ => Accumulates.trans trims

theorem trims_removeSources (plain : outputRoot.Plain)
    (whole : '/' ∉ toolchain.outputExtension.toList) (sources : List Path) (opened : OpenSession)
    (wellFormed : opened.world.files.WellFormed) (records : opened.session.RecordsTypes) :
    Ends (removeSources toolchain outputRoot sources) opened
      (fun _ next => Trims toolchain outputRoot opened next)
      (fun _ next => Trims toolchain outputRoot opened next) := by
  refine trims_forM wellFormed records ?_ sources
  intro source next wellFormed records
  refine ends_removeSource_of (fun _ => Accumulates.refl next) fun name recorded => ?_
  have first : Trims toolchain outputRoot next
      { next with session := next.session.withoutSource source } :=
    ⟨Accumulates.refl next.world.files, Accumulates.refl next.world.files,
      fun records => records.withoutSource source, fun _ _ _ known unknown => absurd known unknown⟩
  exact (trims_forgetClass plain whole (records source name recorded) source
    { next with session := next.session.withoutSource source } wellFormed).imp
    (fun _ _ => Accumulates.trans first) fun _ _ => Accumulates.trans first

theorem trims_forM_forgetPrevious (plain : outputRoot.Plain)
    (whole : '/' ∉ toolchain.outputExtension.toList) (batch : List Declaration)
    (opened : OpenSession) (wellFormed : opened.world.files.WellFormed)
    (records : opened.session.RecordsTypes) :
    Ends (batch.forM (forgetPrevious toolchain outputRoot batch)) opened
      (fun _ next => Trims toolchain outputRoot opened next)
      (fun _ next => Trims toolchain outputRoot opened next) := by
  refine trims_forM wellFormed records ?_ batch
  intro declaration next wellFormed records
  exact ends_forgetPrevious_of (fun _ => Accumulates.refl next) fun previous recorded _ =>
    trims_forgetClass plain whole (records _ _ recorded) _ next wellFormed

theorem clears_refresh (plain : outputRoot.Plain) (whole : '/' ∉ toolchain.outputExtension.toList)
    (sources : List Path) (opened : OpenSession) (wellFormed : opened.world.files.WellFormed)
    (records : opened.session.RecordsTypes) :
    Ends (refresh toolchain outputRoot sources) opened
      (fun _ next => Clears outputRoot opened.world.files next.world.files)
      (fun _ next => Clears outputRoot opened.world.files next.world.files) := by
  have reads : ∀ batch : List Declaration, Moves (OnOpenFiles (Clears outputRoot))
      (batch.forM (refreshOne toolchain outputRoot)) :=
    fun batch => Moves.forM fun declaration _ =>
      Moves.bind (moves_look _) fun _ => moves_revise _
  rw [refresh, ends_bind]
  refine (ends_declarations toolchain sources opened).imp ?_ ?_
  · rintro batch _ ⟨rfl, -, -⟩
    rw [ends_bind]
    refine (trims_forM_forgetPrevious plain whole batch _ wellFormed records).imp ?_
      fun _ _ trims => trims.files
    intro _ middle trims
    exact (reads batch middle).imp (fun _ _ => Accumulates.trans trims.files)
      fun _ _ => Accumulates.trans trims.files
  · rintro _ _ rfl
    exact Accumulates.refl _

end Forget

/-! ## Storing -/

section Store

theorem quiet_removeFile {cacheFile : Path} {files : FileSystem}
    (named : cacheFile = layout.sessionFile pair directory)
    (disjoint : Disjoint layout pair files) :
    Ends (removeFile cacheFile) files (fun _ next => Quiet layout pair directory files next)
      (fun _ next => Quiet layout pair directory files next) := by
  have below := CacheLayout.below_sessionFile disjoint.plainRoot pair directory
  rw [← named] at below
  exact (moves_removeFile below.near files).imp
    (fun _ _ clears => disjoint.quiet_of_clears directory clears)
    fun _ _ clears => disjoint.quiet_of_clears directory clears

theorem moves_reset {cacheFile : Path} (plain : layout.root.Plain)
    (named : cacheFile = layout.sessionFile pair directory) :
    Moves (OnOpenFiles (Clears layout.sessionRoot)) (reset cacheFile) := by
  have below := CacheLayout.below_sessionFile plain pair directory
  rw [← named] at below
  exact Moves.bind (moves_revise _) fun _ => moves_outside (moves_change (moves_ignoreMissing
    (moves_removeFile below.near)))

theorem ends_persist_files {cacheFile : Path} {opened : OpenSession}
    (named : cacheFile = layout.sessionFile pair directory)
    (disjoint : Disjoint layout pair opened.world.files) :
    Ends (persist cacheFile) opened
      (fun _ next => Within layout.sessionRoot opened.world.files next.world.files ∧
        next.world.files.Holds (layout.sessionFile pair directory)
          opened.session.toCacheData.encode)
      (fun _ next => Quiet layout pair directory opened.world.files next.world.files) := by
  have plainRoot := disjoint.plainRoot
  have root := CacheLayout.below_sessionRoot plainRoot
  have key := pair.isName_key directory
  have temporary : IsName (pair.key directory ++ "." ++ "tmp") := key.withExtension (by decide)
  have stored : IsName (pair.key directory ++ "." ++ "bin") := key.withExtension (by decide)
  have near : ∀ name, IsName name → Near layout.sessionRoot (layout.sessionRoot.join name) :=
    fun name isName => ((Below.refl root.plain).join isName).near
  rw [CacheLayout.sessionFile_eq] at named
  have parent : cacheFile.parent? = some layout.sessionRoot := by
    rw [named, root.plain.parent?_join stored]
  simp only [persist, store, ends_bind, ends_current, ends_outside, ends_change, parent]
  have makes := (moves_makeDirectories (Below.refl root.plain).near opened.world.files).and
    (moves_makeDirectories_spares root.plain cacheFile opened.world.files)
  have quiet : ∀ next, Within layout.sessionRoot opened.world.files next ∧
      Spares cacheFile opened.world.files next →
      Quiet layout pair directory opened.world.files next := by
    intro next made
    refine disjoint.quiet_of_session made.1 ?_
    rw [CacheLayout.sessionFile_eq, ← named]
    exact made.2
  refine makes.imp ?_ fun _ => quiet
  intro _ middle made
  have replaces := ends_replaceFile_join root.plain key opened.session.toCacheData.encode middle
  rw [← named] at replaces
  refine replaces.imp ?_ ?_
  · rintro _ next ⟨touches, holds⟩
    have within : Within layout.sessionRoot opened.world.files next :=
      Accumulates.trans made.1 (touches.within (by
        rw [named]
        simpa using ⟨near _ temporary, near _ stored⟩))
    refine ⟨within, ?_⟩
    rw [CacheLayout.sessionFile_eq, ← named]
    exact holds
  · intro _ next touches
    refine quiet next ⟨Accumulates.trans made.1 (touches.within (by simpa using near _ temporary)),
      Accumulates.trans made.2 (touches.spares ?_)⟩
    rintro other member
    rw [List.mem_singleton.mp member, named]
    refine (apart_join root.plain stored.whole temporary.whole ?_).placeFor_ne
    intro same
    have ends := congrArg (fun text => text.toList.getLast?) same
    simp at ends

end Store

end Session

end AbiBuild
