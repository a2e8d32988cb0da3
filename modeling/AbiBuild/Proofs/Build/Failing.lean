import AbiBuild.Proofs.Build.Forgetting

/-!
# Builds that have to be made again

Only the session finds out that what it was told does not fit, and it does so before it has changed
anything.  By then at most the compiler has run, so the outputs and the cache file alone may be
different from what they were.
-/

namespace AbiBuild

open Files FileSystem SessionAction

variable {toolchain : Toolchain} {request : BuildRequest} {outputRoot cacheFile : Path}

/-! ## Errors -/

section FailsOnly

variable {σ α β : Type}

def NeverRebuilds (action : EStateM BuildError σ α) : Prop :=
  ∀ state, Ends action state (fun _ _ => True) fun error _ => error.requiresFullRebuild = false

namespace NeverRebuilds

protected theorem pure (value : α) : NeverRebuilds (pure value : EStateM BuildError σ α) :=
  fun _ => trivial

protected theorem bind {action : EStateM BuildError σ α} {next : α → EStateM BuildError σ β}
    (first : NeverRebuilds action) (second : ∀ value, NeverRebuilds (next value)) :
    NeverRebuilds (action >>= next) := by
  intro state
  rw [ends_bind]
  exact (first state).imp (fun value middle _ => second value middle) fun _ _ => id

theorem forM {step : α → EStateM BuildError σ PUnit} {values : List α}
    (each : ∀ value, NeverRebuilds (step value)) : NeverRebuilds (values.forM step) := by
  induction values with
  | nil => exact NeverRebuilds.pure ()
  | cons value values ih => exact NeverRebuilds.bind (each value) fun _ => ih

theorem mapM {step : α → EStateM BuildError σ β} {values : List α}
    (each : ∀ value, NeverRebuilds (step value)) : NeverRebuilds (values.mapM step) := by
  induction values with
  | nil => exact NeverRebuilds.pure []
  | cons value values ih =>
      rw [List.mapM_cons]
      exact NeverRebuilds.bind (each value) fun _ =>
        NeverRebuilds.bind ih fun _ => NeverRebuilds.pure _

theorem change (action : FileAction α) : NeverRebuilds (BuildAction.change action) := by
  intro world
  rw [ends_change]
  exact (ends_true action world.files).imp (fun _ _ => id) fun _ _ _ => rfl

theorem outside {action : BuildAction α} (never : NeverRebuilds action) :
    NeverRebuilds (SessionAction.outside action) := by
  intro opened
  rw [ends_outside]
  exact never opened.world

theorem consult {look : Session → FileSystem → Except BuildError α}
    (never : ∀ session files error, look session files = .error error →
      error.requiresFullRebuild = false) : NeverRebuilds (SessionAction.consult look) := by
  intro opened
  rw [ends_look]
  cases looks : look opened.session opened.world.files with
  | ok value => trivial
  | error error => exact never _ _ _ looks

theorem revise (change : Session → Session) : NeverRebuilds (SessionAction.revise change) :=
  fun _ => trivial

theorem current : NeverRebuilds SessionAction.current := fun _ => trivial

end NeverRebuilds

end FailsOnly

/-! ## What the compiler changes -/

structure BuildsIn (root : Path) (before after : FileSystem) : Prop where
  host : after.host = before.host
  calm : before.Calm → after.Calm
  above : ∀ place, place <+: before.placeFor root →
    after.entryAt? place = before.entryAt? place ∨ after.entryAt? place = some .directory
  elsewhere : ∀ place, ¬before.placeFor root <+: place → ¬place <+: before.placeFor root →
    after.entryAt? place = before.entryAt? place

theorem BuildsIn.refl (root : Path) (files : FileSystem) : BuildsIn root files files :=
  ⟨rfl, id, fun _ _ => .inl rfl, fun _ _ _ => rfl⟩

theorem ends_write_buildsIn {name : String} {content : Bytes} (plain : outputRoot.Plain)
    (isName : IsName name) (files : FileSystem) : Ends (FileSystem.write (outputRoot.join name) content) files
      (fun _ next => BuildsIn outputRoot files next) (fun _ _ => True) := by
  have less : Moves RefusesLess (FileSystem.write (outputRoot.join name) content) := by
    refine moves_attempt_refusesLess fun files next placed => ?_
    obtain ⟨-, -, rfl⟩ := placedFile_eq_ok (plain.join isName) placed
    rfl
  refine ((moves_write (plain.join isName) content files).and (less files)).imp ?_
    fun _ _ _ => trivial
  rintro _ next ⟨touches, less⟩
  have place : files.placeFor (outputRoot.join name) = files.placeFor outputRoot ++ [name] :=
    placeFor_join plain isName.whole
  have elsewhere : ∀ other, other ≠ files.placeFor (outputRoot.join name) →
      next.entryAt? other = files.entryAt? other := by
    intro other different
    by_cases root : other = []
    · rw [root]
      rfl
    · rw [entryAt?_of_ne_nil _ root, entryAt?_of_ne_nil _ root,
        touches.elsewhere other (by simpa using different)]
  refine ⟨touches.host, fun calm =>
    ⟨touches.wellFormed calm.wellFormed, ?_, calm.legible.congr touches.host⟩, ?_, ?_⟩
  · exact List.subset_nil.mp (calm.refusals ▸ less)
  · intro other leads
    refine .inl (elsewhere other ?_)
    rintro rfl
    have short := leads.length_le
    rw [place, List.length_append, List.length_singleton] at short
    omega
  · intro other outside _
    refine elsewhere other ?_
    rintro rfl
    exact outside (place ▸ List.prefix_append _ _)

/-- The compiler builds in the output root, and its errors and those of the readers are their own. -/
structure Toolchain.BuildsOnly (toolchain : Toolchain) (outputRoot : Path) : Prop where
  compiles : ∀ compile : CompileRequest, compile.outputRoot = outputRoot → ∀ world : World,
    Ends (toolchain.compile compile) world
      (fun _ next => BuildsIn outputRoot world.files next.files)
      (fun error _ => error.requiresFullRebuild = false)
  declares : ∀ files source error, toolchain.typeDeclaredBy files source = .error error →
    error.requiresFullRebuild = false
  surfaces : ∀ files unit error, toolchain.surfaceOf files unit = .error error →
    error.requiresFullRebuild = false

theorem CanBuild.buildsIn {before after : FileSystem} (can : CanBuild outputRoot cacheFile before)
    (builds : BuildsIn outputRoot before after) : CanBuild outputRoot cacheFile after := by
  have places := placeFor_congr builds.host
  -- What is not below the output root stays or becomes a directory.
  have outside : ∀ place, ¬before.placeFor outputRoot <+: place ∨ place = before.placeFor outputRoot →
      after.entryAt? place = before.entryAt? place ∨ after.entryAt? place = some .directory := by
    rintro place (outside | rfl)
    · by_cases leads : place <+: before.placeFor outputRoot
      · exact builds.above place leads
      · exact .inl (builds.elsewhere place outside leads)
    · exact builds.above _ (List.prefix_refl _)
  have noFile : ∀ place content,
      ¬before.placeFor outputRoot <+: place ∨ place = before.placeFor outputRoot →
      after.entryAt? place = some (.file content) → before.entryAt? place = some (.file content) := by
    intro place content isOutside found
    rcases outside place isOutside with same | directory
    · rw [← same, found]
    · rw [directory] at found
      cases found
  have directory : ∀ place, ¬before.placeFor outputRoot <+: place ∨ place = before.placeFor outputRoot →
      before.entryAt? place = some .directory → after.entryAt? place = some .directory := by
    intro place isOutside directory
    rcases outside place isOutside with same | directory
    · rw [same, directory]
    · exact directory
  refine ⟨builds.calm can.calm, ⟨can.output.mono builds.host ?_ ?_, ?_⟩,
    ⟨can.cache.mono builds.host ?_ ?_, ?_⟩, can.apart.congr builds.host⟩
  · exact directory _ (.inl (not_prefix_baseOf can.output.plain)) can.output.base
  · intro place content leads further found
    refine ⟨content, noFile place content (.inl fun inside => ?_) found⟩
    exact further (leads.eq_of_length_le inside.length_le)
  · intro content found
    rw [places] at found
    exact can.output.leaf content (noFile _ _ (.inr rfl) found)
  · refine directory _ (.inl fun inside => ?_) can.cache.base
    exact can.apart.left (inside.trans (prefix_baseOf _ _))
  · intro place content leads _ found
    exact ⟨content, noFile place content (.inl fun inside => can.apart.left (inside.trans leads)) found⟩
  · rw [places, builds.elsewhere _ can.apart.left can.apart.right]
    exact can.cache.leaf

theorem AlikeOutside.refl {files : FileSystem} (can : CanBuild outputRoot cacheFile files) :
    AlikeOutside outputRoot cacheFile files files :=
  ⟨can, can, rfl, fun _ _ _ _ => rfl⟩

theorem AlikeOutside.buildsIn {first second after : FileSystem}
    (alike : AlikeOutside outputRoot cacheFile first second)
    (builds : BuildsIn outputRoot second after) : AlikeOutside outputRoot cacheFile first after := by
  have places := placeFor_congr alike.host
  refine ⟨alike.left, alike.right.buildsIn builds, builds.host.trans alike.host, ?_⟩
  intro place apart outside leads
  rw [builds.elsewhere place (by rwa [places]) (by rwa [places]),
    alike.elsewhere place apart outside leads]

theorem AlikeOutside.symm {first second : FileSystem}
    (alike : AlikeOutside outputRoot cacheFile first second) :
    AlikeOutside outputRoot cacheFile second first := by
  have places := placeFor_congr alike.host
  refine ⟨alike.right, alike.left, alike.host.symm, fun place => ?_⟩
  rw [places, places]
  exact fun apart outside leads => (alike.elsewhere place apart outside leads).symm

/-! ## Another tree beside them -/

section Beside

variable {root : Path} {first second : FileSystem}

theorem AlikeOutside.takesDirectory (alike : AlikeOutside outputRoot cacheFile first second)
    (takes : TakesDirectory root first) (sameBase : root.isAbsolute = cacheFile.isAbsolute)
    (apartOutput : Apart first outputRoot root) (apartCache : Apart first cacheFile root) :
    TakesDirectory root second := by
  have places := placeFor_congr alike.host
  have noFile : ∀ place content, place <+: first.placeFor root →
      second.entryAt? place = some (.file content) →
        first.entryAt? place = some (.file content) := by
    intro place content leads found
    by_cases onTheWay : place <+: first.placeFor cacheFile
    · refine absurd found (alike.right.cache.way place content (by rwa [places]) ?_)
      rintro rfl
      rw [places] at leads
      exact apartCache.left leads
    have outside : ¬first.placeFor outputRoot <+: place :=
      fun inside => apartOutput.left (inside.trans leads)
    by_cases above : place <+: first.placeFor outputRoot
    · refine absurd found (alike.right.output.way place content (by rwa [places]) ?_)
      rintro rfl
      rw [places] at outside
      exact outside (List.prefix_refl _)
    rw [← alike.elsewhere place onTheWay outside above, found]
  refine ⟨takes.mono alike.host ?_ fun place content leads _ found =>
    ⟨content, noFile place content leads found⟩, fun content found => ?_⟩
  · have base : first.baseOf root = second.baseOf cacheFile := by
      rw [baseOf, baseOf, sameBase, alike.host]
    rw [base]
    exact alike.right.cache.base
  · rw [places] at found
    exact takes.leaf content (noFile _ content (List.prefix_refl _) found)

variable (apartOutput : Apart first outputRoot root) (apartCache : Apart first cacheFile root)
include apartOutput apartCache

theorem CanBuild.cleared {after : FileSystem} (can : CanBuild outputRoot cacheFile first)
    (becomes : Becomes first after (first.cleared (first.placeFor root))) :
    CanBuild outputRoot cacheFile after := by
  have noNewFile := first.noNewFile_cleared (first.placeFor root)
  refine ⟨becomes.calm,
    can.output.becomes becomes noNewFile (can.output.base_cleared fun inside => ?_),
    can.cache.becomes becomes noNewFile (can.cache.base_cleared fun inside => ?_) ?_,
    can.apart.congr becomes.host⟩
  · exact apartOutput.right (inside.trans (prefix_baseOf _ _))
  · exact apartCache.right (inside.trans (prefix_baseOf _ _))
  · rw [FileSystem.cleared, if_neg apartCache.right]
    exact can.cache.leaf

theorem AlikeOutside.cleared {before after : FileSystem}
    (alike : AlikeOutside outputRoot cacheFile first second)
    (becomes : Becomes first before (first.cleared (first.placeFor root)))
    (becomes' : Becomes second after (second.cleared (second.placeFor root))) :
    AlikeOutside outputRoot cacheFile before after := by
  have places := placeFor_congr alike.host
  refine ⟨alike.left.cleared apartOutput apartCache becomes,
    alike.right.cleared (apartOutput.congr alike.host) (apartCache.congr alike.host)
      becomes', ?_, fun place => ?_⟩
  · rw [becomes.host, becomes'.host, alike.host]
  · rw [placeFor_congr becomes.host, placeFor_congr becomes.host]
    intro apart outside leads
    rw [becomes.entries, becomes'.entries, FileSystem.cleared, FileSystem.cleared, places,
      alike.elsewhere place apart outside leads]

end Beside

/-! ## Where a session fails -/

namespace Session

variable (builds : toolchain.BuildsOnly outputRoot)

theorem neverRebuilds_forgetClass (name : String) (source : Path) :
    NeverRebuilds (forgetClass toolchain outputRoot name source) := by
  refine NeverRebuilds.bind NeverRebuilds.current fun session => ?_
  split
  · exact NeverRebuilds.bind (NeverRebuilds.outside (NeverRebuilds.change _)) fun _ =>
      NeverRebuilds.revise _
  · exact NeverRebuilds.pure _

theorem neverRebuilds_removeSources (sources : List Path) :
    NeverRebuilds (removeSources toolchain outputRoot sources) := by
  refine NeverRebuilds.forM fun source => NeverRebuilds.bind NeverRebuilds.current fun session => ?_
  split
  · exact NeverRebuilds.pure _
  · exact NeverRebuilds.bind (NeverRebuilds.revise _) fun _ => neverRebuilds_forgetClass _ _

theorem neverRebuilds_persist : NeverRebuilds (persist cacheFile) :=
  NeverRebuilds.bind NeverRebuilds.current fun _ => NeverRebuilds.outside (NeverRebuilds.change _)

include builds in
theorem neverRebuilds_refresh (sources : List Path) :
    NeverRebuilds (refresh toolchain outputRoot sources) := by
  refine NeverRebuilds.bind (NeverRebuilds.mapM fun source => ?_) fun batch =>
    NeverRebuilds.bind (NeverRebuilds.forM fun declaration => ?_) fun _ =>
      NeverRebuilds.forM fun declaration => ?_
  · exact NeverRebuilds.bind
      (NeverRebuilds.consult fun _ files error => builds.declares files source error) fun _ =>
        NeverRebuilds.pure _
  · refine NeverRebuilds.bind NeverRebuilds.current fun session => ?_
    split
    · exact NeverRebuilds.pure _
    · split
      · exact neverRebuilds_forgetClass _ _
      · exact NeverRebuilds.pure _
  · exact NeverRebuilds.bind (NeverRebuilds.consult fun _ files error => builds.surfaces files _ error)
      fun _ => NeverRebuilds.revise _

end Session

namespace Build

variable (builds : toolchain.BuildsOnly request.outputRoot)
include builds

theorem ends_compileAny_buildsIn (precompiled sources : PathSet) (world : World) :
    Ends (compileAny toolchain request precompiled sources) world
      (fun _ next => BuildsIn request.outputRoot world.files next.files)
      (fun error _ => error.requiresFullRebuild = false) := by
  rw [compileAny]
  split
  · exact BuildsIn.refl _ _
  · exact builds.compiles _ rfl world

theorem neverRebuilds_full : NeverRebuilds (full toolchain request) := by
  have compiles : NeverRebuilds (compileAny toolchain request ∅
      (PathSet.ofList request.sources.present)) :=
    fun world => (ends_compileAny_buildsIn builds _ _ world).imp (fun _ _ _ => trivial) fun _ _ => id
  have commits : NeverRebuilds (commitFull toolchain request
      (PathSet.ofList request.sources.present)) :=
    NeverRebuilds.bind (NeverRebuilds.bind (NeverRebuilds.revise _) fun _ =>
      NeverRebuilds.outside (NeverRebuilds.change _)) fun _ =>
        NeverRebuilds.bind (Session.neverRebuilds_refresh builds _) fun _ =>
          Session.neverRebuilds_persist
  rw [full_eq]
  refine NeverRebuilds.bind (NeverRebuilds.outside (NeverRebuilds.bind (NeverRebuilds.change _)
    fun _ => compiles)) fun exitCode => ?_
  dsimp only
  split
  · exact NeverRebuilds.bind commits fun _ => NeverRebuilds.pure _
  · exact fun _ => trivial

theorem ends_incremental_buildsIn (opened : OpenSession) :
    Ends (incremental toolchain request) opened (fun _ _ => True) fun error next =>
      error.requiresFullRebuild →
        BuildsIn request.outputRoot opened.world.files next.world.files := by
  rw [incremental, ends_bind, ends_look]
  split
  next plan _ =>
    refine ends_compiled ((ends_compileAny_buildsIn builds _ _ opened.world).imp (fun _ _ => id)
      fun _ _ own rebuild => absurd rebuild (Bool.eq_false_iff.mp own)) ?_ fun _ _ _ _ _ => trivial
    intro compiled _ built
    rw [commit, ends_bind, ends_look]
    split
    next declared _ =>
      have rest : NeverRebuilds (do
          let session ← SessionAction.current
          Session.removeSources toolchain request.outputRoot
            ((request.sources.inState [.removed]).filter fun source =>
              !wasMoved session declared source)
          Session.refresh toolchain request.outputRoot plan.recompile.toList
          Session.persist request.cacheFile) :=
        NeverRebuilds.bind NeverRebuilds.current fun _ =>
          NeverRebuilds.bind (Session.neverRebuilds_removeSources _) fun _ =>
            NeverRebuilds.bind (Session.neverRebuilds_refresh builds _) fun _ =>
              Session.neverRebuilds_persist
      exact (rest compiled).imp (fun _ _ => id)
        fun _ _ own rebuild => absurd rebuild (Bool.eq_false_iff.mp own)
    next => exact fun _ => built
  next => exact fun _ => BuildsIn.refl _ _

theorem alikeOutside_of_fails {world failed : World} {error : BuildError}
    (can : CanBuild request.outputRoot request.cacheFile world.files)
    (fails : compileSources toolchain request world = .error error failed)
    (rebuild : error.requiresFullRebuild) :
    AlikeOutside request.outputRoot request.cacheFile world.files failed.files := by
  obtain ⟨session, opened, opens, stays⟩ := Session.exists_start world can.calm can.cache
  have alike := (AlikeOutside.refl can).opened (.inl rfl) stays
  simp only [compileSources, bind, EStateM.bind, opens] at fails
  have everything : ∀ world, Ends (full toolchain request) ⟨session, world⟩ (fun _ _ => True)
      fun error next => error.requiresFullRebuild →
        BuildsIn request.outputRoot opened.files next.world.files := by
    intro world
    exact (neverRebuilds_full builds _).imp (fun _ _ => id)
      fun _ _ own rebuild => absurd rebuild (Bool.eq_false_iff.mp own)
  have chooses : Ends (choose toolchain request) ⟨session, opened⟩ (fun _ _ => True)
      fun error next => error.requiresFullRebuild →
        BuildsIn request.outputRoot opened.files next.world.files := by
    rw [choose, ends_ite]
    split
    · exact everything _
    · rw [ends_bind, ends_current, ends_ite]
      split
      · rw [ends_bind, ends_outside, ends_notify]
        exact everything _
      · rw [ends_ite]
        split
        · trivial
        · exact ends_incremental_buildsIn builds ⟨session, opened⟩
  have runs := (ends_run session (choose toolchain request) opened (fun _ _ => True)
    fun error next => error.requiresFullRebuild →
      BuildsIn request.outputRoot opened.files next.files).mpr chooses
  exact alike.buildsIn (runs.of_error fails rebuild)

end Build

end AbiBuild
