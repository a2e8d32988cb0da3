import AbiBuild.Proofs.Build.CacheFile
import AbiBuild.Proofs.Build.Incremental
import AbiBuild.Proofs.Build.Units

/-!
# Live and dead outputs

Committing removes outputs in two places: of sources that are gone, and of types that compiled
sources declared before.  What a present source stands for keeps all its outputs, and of a recorded
type that no source stands for any more nothing is left.
-/

namespace AbiBuild

open Files FileSystem SessionAction

variable {toolchain : Toolchain} {request : BuildRequest} {outputRoot path : Path}

structure Toolchain.ReadsSources (toolchain : Toolchain) : Prop where
  reads : ∀ files path name, toolchain.typeDeclaredBy files path = .ok name →
    ∃ content, files.read path = .ok content
  determined : ∀ before after path content, before.read path = .ok content →
    after.read path = .ok content →
      toolchain.typeDeclaredBy after path = toolchain.typeDeclaredBy before path

theorem Toolchain.ReadsSources.declares {before after : FileSystem} {name : String}
    (readsSources : toolchain.ReadsSources) (clears : Clears outputRoot before after)
    (declares : toolchain.typeDeclaredBy after path = .ok name) :
    toolchain.typeDeclaredBy before path = .ok name := by
  obtain ⟨content, reads⟩ := readsSources.reads _ _ _ declares
  rw [← declares, readsSources.determined before after path content (clears.read reads) reads]

/-! ## Storing the session -/

theorem Files.FileSystem.Spares.isFile {before after : FileSystem} (spares : Spares path before after)
    (wellFormed : before.WellFormed) (wellFormedAfter : after.WellFormed) (plain : path.Plain)
    (missing : before.isFile path = false) : after.isFile path = false := by
  rw [Bool.eq_false_iff, ne_eq, isFile_iff] at missing ⊢
  rintro ⟨content, isFile⟩
  obtain ⟨fits, found⟩ := (entryOf_eq_ok wellFormedAfter plain).mp isFile
  exact missing ⟨content, (entryOf_eq_ok wellFormed plain).mpr ⟨fits, spares.old content found⟩⟩

namespace Outputs

theorem IsOutput.exists_last {name extension : String} (plain : outputRoot.Plain)
    (isTypeName : IsTypeName name) (whole : '/' ∉ extension.toList)
    (isOutput : IsOutput outputRoot name extension path) : ∃ fileName,
      (steps path).getLast? = some fileName ∧ ("." ++ extension).toList <:+ fileName.toList := by
  rcases isOutput with rfl | ⟨nested, rfl, isName, isNested⟩
  · rw [steps_unitPath plain isTypeName whole, List.getLast?_concat]
    exact ⟨_, rfl, (Text.lastPiece '/' name).toList, by simp⟩
  · rw [Path.getLast?_steps_join _ isName]
    rw [isNestedUnit, Bool.and_eq_true] at isNested
    exact ⟨nested, rfl, List.isSuffixOf_iff_suffix.mp isNested.2⟩

end Outputs

namespace Session

theorem ends_persist_output {cacheFile : Path} {name extension : String}
    (isCacheFile : IsCacheFile cacheFile) (own : Outputs.OwnExtension extension)
    (lasting : extension ≠ "tmp") (plain : outputRoot.Plain) (isTypeName : IsTypeName name)
    (isOutput : Outputs.IsOutput outputRoot name extension path) (opened : OpenSession) :
    Ends (persist cacheFile) opened
      (fun _ next => Leaves path opened.world.files next.world.files ∧
        Spares path opened.world.files next.world.files) (fun _ _ => True) := by
  obtain ⟨directory, stem, plainDirectory, isName, rfl⟩ := isCacheFile
  obtain ⟨fileName, last, ends⟩ := isOutput.exists_last plain isTypeName own.whole
  have stored : IsName (stem ++ "." ++ "bin") := isName.withExtension (by decide)
  have temporary : IsName (stem ++ "." ++ "tmp") := isName.withExtension (by decide)
  have apart : ∀ (files : FileSystem) (other : String), IsName other → fileName ≠ other →
      files.placeFor path ≠ files.placeFor (directory.join other) := by
    intro files other isOther different same
    have lastPlace : (files.placeFor path).getLast? = some fileName := by
      rw [placeFor, List.getLast?_append, last]
      rfl
    rw [same, placeFor_join plainDirectory isOther.whole, List.getLast?_concat] at lastPlace
    exact different (Option.some.inj lastPlace).symm
  simp only [persist, store, ends_bind, ends_current, ends_outside, ends_change,
    plainDirectory.parent?_join stored]
  refine ((moves_makeDirectories_leaves plainDirectory path opened.world.files).and
    (moves_makeDirectories_spares plainDirectory path opened.world.files)).imp ?_
    fun _ _ _ => trivial
  rintro _ middle ⟨leaves, spares⟩
  refine (ends_replaceFile_join plainDirectory isName _ middle).imp ?_ fun _ _ _ => trivial
  rintro _ next ⟨touches, -⟩
  have elsewhere : ∀ other ∈ [directory.join (stem ++ "." ++ "tmp"),
      directory.join (stem ++ "." ++ "bin")], middle.placeFor path ≠ middle.placeFor other := by
    simp only [List.forall_mem_cons]
    exact ⟨apart middle _ temporary (own.ne_of_suffix (by decide) lasting ends),
      apart middle _ stored (own.ne_of_suffix (by decide) own.different ends), by simp⟩
  exact ⟨Accumulates.trans leaves (touches.leaves elsewhere),
    Accumulates.trans spares (touches.spares elsewhere)⟩

/-! ## Forgetting -/

/-- After a batch was taken in, nothing is left of the types that its sources declared before and
that none of them declares now. -/
theorem ends_refresh_gone {opened : OpenSession} (plain : outputRoot.Plain)
    (whole : '/' ∉ toolchain.outputExtension.toList) (paired : opened.session.Paired)
    (wellFormed : opened.world.files.WellFormed) (records : opened.session.RecordsTypes)
    (honest : some .notFound ∉ opened.world.files.refusals)
    (legible : opened.world.files.LegibleBelow outputRoot) (sources : List Path) :
    Ends (refresh toolchain outputRoot sources) opened
      (fun _ next => (∀ source ∈ sources, ∃ name,
          toolchain.typeDeclaredBy opened.world.files source = .ok name) ∧
        ∀ source ∈ sources, ∀ name, opened.session.recordedType? source = some name →
          (∀ other ∈ sources, toolchain.typeDeclaredBy opened.world.files other ≠ .ok name) →
          ∀ path, Outputs.IsOutput outputRoot name toolchain.outputExtension path →
            next.world.files.isFile path = false)
      (fun _ _ => True) := by
  rw [refresh, ends_bind]
  refine (ends_declarations toolchain sources opened).imp ?_ fun _ _ _ => trivial
  rintro batch middle ⟨unmoved, rfl, declared⟩
  rw [unmoved, ends_bind]
  refine ((trims_forM_forgetPrevious plain whole batch opened wellFormed records).and
    (ends_forM_forgetPrevious toolchain outputRoot batch opened)).imp ?_ fun _ _ _ => trivial
  rintro _ dropped ⟨trims, forgotten⟩
  refine (ends_forM_refreshOne toolchain outputRoot batch dropped).imp ?_ fun _ _ _ => trivial
  rintro _ next ⟨same, -⟩
  simp only [List.forall_mem_map]
  refine ⟨fun declaration member => ⟨_, declared declaration member⟩, ?_⟩
  intro declaration member name recorded unclaimed path isOutput
  have forgets : opened.session.Forgets batch batch name :=
    ⟨⟨declaration, member, recorded⟩, fun other claims same =>
      unclaimed other claims (same ▸ declared other claims)⟩
  obtain ⟨source, known, -⟩ := (paired _ _).mp recorded
  rw [same]
  refine trims.gone honest legible name ?_ ?_ path isOutput
  · rw [Std.ExtTreeMap.mem_iff_isSome_getElem?, known]
    rfl
  · rw [forgotten, Std.ExtTreeMap.mem_iff_isSome_getElem?, Option.isSome_iff_exists]
    rintro ⟨other, still⟩
    exact ((paired.loses_foldl_dropPrevious (List.Subset.refl batch)).classes name other
      |>.mp still).2 forgets

end Session

namespace Build

/-! ## Committing -/

/-- A type that can have units, none of them named like one of a nested type. -/
structure IsTopLevel (name : String) : Prop where
  isTypeName : IsTypeName name
  outer : '$' ∉ name.toList

instance (name : String) : Decidable (IsTopLevel name) :=
  decidable_of_iff (IsTypeName name ∧ '$' ∉ name.toList)
    ⟨fun ⟨isTypeName, outer⟩ => ⟨isTypeName, outer⟩,
      fun isTopLevel => ⟨isTopLevel.isTypeName, isTopLevel.outer⟩⟩

/-- A present source stands for the type: it declares it if it was compiled, and otherwise it has
this type on record. -/
inductive IsLive (session : Session) (toolchain : Toolchain) (files : FileSystem)
    (sources : SourceStates) (compiled : PathSet) (name : String) : Prop
  | declared {source : Path} (present : ∃ other ∈ sources.present, other.location = source.location)
      (listed : source ∈ compiled.toList) (declares : toolchain.typeDeclaredBy files source = .ok name)
  | kept {source : Path} (present : source ∈ sources.present) (untouched : source ∉ compiled)
      (recorded : session.recordedType? source = some name)

structure Commits (toolchain : Toolchain) (request : BuildRequest) (compiled : PathSet)
    (declared : List String) (opened trimmed learned next : OpenSession) : Prop where
  redeclares : redeclared opened.session toolchain opened.world.files
    (request.sources.inState [.removed]) compiled = .ok declared
  removes : Session.removeSources toolchain request.outputRoot
    ((request.sources.inState [.removed]).filter fun source =>
      !wasMoved opened.session declared source) opened = .ok () trimmed
  refreshes : Session.refresh toolchain request.outputRoot compiled.toList trimmed =
    .ok () learned
  persists : Session.persist request.cacheFile learned = .ok () next

theorem exists_of_commit_eq_ok {compiled : PathSet} {opened next : OpenSession}
    (succeeds : commit toolchain request compiled opened = .ok () next) :
    ∃ declared trimmed learned,
      Commits toolchain request compiled declared opened trimmed learned next := by
  obtain ⟨declared, middle, looks, rest⟩ := exists_of_bind_eq_ok succeeds
  obtain ⟨session, same, reads, rest⟩ := exists_of_bind_eq_ok rest
  obtain ⟨_, trimmed, removes, rest⟩ := exists_of_bind_eq_ok rest
  obtain ⟨_, learned, refreshes, persists⟩ := exists_of_bind_eq_ok rest
  rw [SessionAction.consult] at looks
  split at looks
  next found redeclares =>
    obtain ⟨sameFound, sameMiddle⟩ := EStateM.Result.ok.inj looks
    obtain ⟨sameSession, same⟩ := EStateM.Result.ok.inj reads
    rw [← sameFound, ← sameSession, ← same, ← sameMiddle] at removes
    exact ⟨found, trimmed, learned, redeclares, removes, refreshes, persists⟩
  next => cases looks

theorem location_ne_of_mem_recompileSet {session : Session} {files : FileSystem}
    {sources : SourceStates} {set : PathSet}
    (computes : recompileSet session toolchain files sources = .ok set) {source : Path}
    (member : source ∈ set) : ∀ gone ∈ sources.inState [.removed],
      gone.location ≠ source.location := by
  obtain ⟨found, -, rest⟩ := bind_eq_ok.mp computes
  obtain rfl := Except.ok.inj rest
  obtain ⟨-, kept⟩ := (mem_filter_not_contains ..).mp member
  rw [PathSet.mem_ofList] at kept
  exact fun gone listed same => kept ⟨gone, listed, same⟩

theorem exists_present_of_mem_recompileSet {session : Session} {files : FileSystem}
    {sources : SourceStates} {set : PathSet}
    (covers : ∀ (name : String) (source : Path),
      session.classToSource[name]? = some source → source ∈ sources)
    (computes : recompileSet session toolchain files sources = .ok set) {source : Path}
    (listed : source ∈ set.toList) :
    ∃ other ∈ sources.present, other.location = source.location := by
  have known : ∃ state, sources[source]? = some state := by
    obtain ⟨added | changed | ⟨name, owned⟩, -⟩ := known_of_mem_recompileSet computes listed
    · exact ⟨_, (PathMap.getElem?_eq_some_iff ..).mpr ⟨source, added, rfl⟩⟩
    · exact ⟨_, (PathMap.getElem?_eq_some_iff ..).mpr ⟨source, changed, rfl⟩⟩
    · exact Option.isSome_iff_exists.mp
        (Std.ExtTreeMap.mem_iff_isSome_getElem?.mp (covers name source owned))
  obtain ⟨state, stands⟩ := known
  obtain ⟨other, entered, same⟩ := (PathMap.getElem?_eq_some_iff ..).mp stands
  have member : source ∈ set := (PathSet.exists_mem_toList _ _).mpr ⟨source, listed, rfl⟩
  refine ⟨other, SourceStates.mem_inState.mpr ⟨state, ?_, entered⟩, same⟩
  cases state with
  | removed =>
      have gone : other ∈ sources.inState [.removed] :=
        SourceStates.mem_inState.mpr ⟨.removed, by simp, entered⟩
      exact absurd same (location_ne_of_mem_recompileSet computes member other gone)
  | added | changed | notChanged => simp

theorem location_ne_of_mem_present {sources : SourceStates} {gone source : Path}
    (removed : gone ∈ sources.inState [.removed]) (present : source ∈ sources.present) :
    gone.location ≠ source.location := by
  obtain ⟨state, wanted, listed⟩ := SourceStates.mem_inState.mp removed
  obtain ⟨state', wanted', listed'⟩ := SourceStates.mem_inState.mp present
  obtain rfl := List.mem_singleton.mp wanted
  intro same
  have equal := (Prod.mk.inj (PathMap.eq_of_mem_toList listed listed' same)).2
  subst equal
  simp at wanted'

/-- What makes outputs of different types different, and what a commit may rely on. -/
structure Tidy (toolchain : Toolchain) (request : BuildRequest) (opened : OpenSession) :
    Prop where
  own : Outputs.OwnExtension toolchain.outputExtension
  outer : '$' ∉ toolchain.outputExtension.toList
  lasting : toolchain.outputExtension ≠ "tmp"
  readsSources : toolchain.ReadsSources
  plain : request.outputRoot.Plain
  isCacheFile : IsCacheFile request.cacheFile
  paired : opened.session.Paired
  recorded : ∀ source name, opened.session.recordedType? source = some name → IsTopLevel name
  wellFormed : opened.world.files.WellFormed
  honest : some .notFound ∉ opened.world.files.refusals
  legible : opened.world.files.LegibleBelow request.outputRoot

namespace Commits

variable {compiled : PathSet} {declared : List String} {opened trimmed learned next : OpenSession}
  {files : FileSystem} {name : String} (tidy : Tidy toolchain request opened)
  (commits : Commits toolchain request compiled declared opened trimmed learned next)
include tidy commits

theorem trims : Session.Trims toolchain request.outputRoot opened trimmed :=
  (Session.trims_removeSources tidy.plain tidy.own.whole _ opened tidy.wellFormed
    fun source name recorded => (tidy.recorded source name recorded).isTypeName).of_ok
      commits.removes

omit tidy in
theorem dropped : trimmed.session = ((request.sources.inState [.removed]).filter fun source =>
    !wasMoved opened.session declared source).foldl Session.dropSource opened.session :=
  (Session.ends_removeSources toolchain request.outputRoot _ opened).of_ok commits.removes

theorem wellFormed_trimmed : trimmed.world.files.WellFormed :=
  (commits.trims tidy).files.wellFormed tidy.wellFormed

theorem records_trimmed : trimmed.session.RecordsTypes :=
  (commits.trims tidy).records fun source name recorded =>
    (tidy.recorded source name recorded).isTypeName

theorem clears_refreshed : Clears request.outputRoot trimmed.world.files learned.world.files :=
  (Session.clears_refresh tidy.plain tidy.own.whole _ trimmed (commits.wellFormed_trimmed tidy)
    (commits.records_trimmed tidy)).of_ok commits.refreshes

theorem paired_trimmed : trimmed.session.Paired := by
  rw [commits.dropped]
  exact tidy.paired.foldl_dropSource _

theorem refreshed_gone :
    (∀ source ∈ compiled.toList, ∃ name,
      toolchain.typeDeclaredBy trimmed.world.files source = .ok name) ∧
    ∀ source ∈ compiled.toList, ∀ name, trimmed.session.recordedType? source = some name →
      (∀ other ∈ compiled.toList,
        toolchain.typeDeclaredBy trimmed.world.files other ≠ .ok name) →
      ∀ path, Outputs.IsOutput request.outputRoot name toolchain.outputExtension path →
        learned.world.files.isFile path = false := by
  have trims := commits.trims tidy
  exact (Session.ends_refresh_gone tidy.plain tidy.own.whole (commits.paired_trimmed tidy)
    (commits.wellFormed_trimmed tidy) (commits.records_trimmed tidy)
    (fun refused => tidy.honest (trims.refusals refused)) (tidy.legible.congr trims.files.host)
    _).of_ok commits.refreshes

theorem declares_iff {source : Path} (listed : source ∈ compiled.toList) :
    toolchain.typeDeclaredBy trimmed.world.files source = .ok name ↔
      toolchain.typeDeclaredBy opened.world.files source = .ok name := by
  obtain ⟨found, declares⟩ := (commits.refreshed_gone tidy).1 source listed
  rw [declares, tidy.readsSources.declares (commits.trims tidy).files declares]

theorem mem_declared_iff {gone : Path} (removed : gone ∈ request.sources.inState [.removed]) :
    name ∈ declared ↔ ∃ source ∈ compiled.toList,
      toolchain.typeDeclaredBy opened.world.files source = .ok name := by
  have each : ∀ source ∈ compiled.toList, opened.session.typeOf toolchain opened.world.files
      source = toolchain.typeDeclaredBy opened.world.files source := by
    intro source listed
    obtain ⟨found, declares⟩ := (commits.refreshed_gone tidy).1 source listed
    obtain ⟨content, reads⟩ :=
      tidy.readsSources.reads _ _ _ ((commits.declares_iff tidy listed).mp declares)
    rw [Session.typeOf, if_pos (pathExists_of_read reads)]
  have redeclares := commits.redeclares
  rw [redeclared, if_neg (by
    rw [List.isEmpty_iff]
    exact List.ne_nil_of_mem removed)] at redeclares
  constructor
  · intro member
    obtain ⟨source, listed, declares⟩ := exists_of_mem_results redeclares member
    exact ⟨source, listed, (each source listed).symm.trans declares⟩
  · rintro ⟨source, listed, declares⟩
    obtain ⟨found, member, declares'⟩ := exists_of_mem_values redeclares listed
    rw [each source listed, declares] at declares'
    rwa [Except.ok.inj declares']

theorem leaves (live : IsLive opened.session toolchain opened.world.files request.sources compiled
      name) (isTopLevel : IsTopLevel name)
    (isOutput : Outputs.IsOutput request.outputRoot name toolchain.outputExtension path) :
    Leaves path opened.world.files next.world.files := by
  have foreign : ∀ source other, opened.session.recordedType? source = some other → other ≠ name →
      Outputs.Foreign request.outputRoot other toolchain.outputExtension path := by
    intro source other recorded different
    have isTopLevelOther := tidy.recorded source other recorded
    exact isOutput.foreign tidy.plain isTopLevelOther.isTypeName isTopLevel.isTypeName
      tidy.own.whole isTopLevel.outer tidy.outer different isTopLevelOther.outer
  have passes : Session.Passes path opened trimmed := by
    refine (Session.passes_removeSources tidy.plain tidy.own.whole tidy.wellFormed ?_).of_ok
      commits.removes
    intro source member other recorded
    obtain ⟨removed, unmoved⟩ := List.mem_filter.mp member
    refine foreign source other recorded ?_
    rintro rfl
    cases live with
    | declared _ listed declares =>
        have moved := (commits.mem_declared_iff tidy removed).mpr ⟨_, listed, declares⟩
        simp [wasMoved, recorded, moved] at unmoved
    | kept present untouched recorded' =>
        exact location_ne_of_mem_present removed present
          (tidy.paired.location_eq recorded recorded')
  have refreshed : Leaves path trimmed.world.files learned.world.files := by
    refine (Session.leaves_refresh tidy.plain tidy.own.whole (commits.wellFormed_trimmed tidy)
      ?_).of_ok commits.refreshes
    intro source member other recorded unclaimed
    have recorded := passes.records source other recorded
    refine foreign source other recorded ?_
    rintro rfl
    cases live with
    | declared _ listed declares =>
        exact unclaimed _ listed ((commits.declares_iff tidy listed).mpr declares)
    | kept present untouched recorded' =>
        exact untouched ((PathSet.exists_mem_toList _ _).mpr
          ⟨source, member, tidy.paired.location_eq recorded recorded'⟩)
  exact Accumulates.trans passes.files (Accumulates.trans refreshed
    ((Session.ends_persist_output tidy.isCacheFile tidy.own tidy.lasting tidy.plain
      isTopLevel.isTypeName isOutput learned).of_ok commits.persists).1)

theorem gone_of_removed {source : Path} (member : source ∈ request.sources.inState [.removed])
    (recorded : opened.session.recordedType? source = some name)
    (undeclared : ∀ other ∈ compiled.toList,
      toolchain.typeDeclaredBy opened.world.files other ≠ .ok name)
    (isOutput : Outputs.IsOutput request.outputRoot name toolchain.outputExtension path) :
    learned.world.files.isFile path = false := by
  have unmoved : name ∉ declared := by
    rw [commits.mem_declared_iff tidy member]
    rintro ⟨other, listed, declares⟩
    exact undeclared other listed declares
  have taken : source ∈ (request.sources.inState [.removed]).filter fun source =>
      !wasMoved opened.session declared source :=
    List.mem_filter.mpr ⟨member, by simp [wasMoved, recorded, unmoved]⟩
  have lost : name ∉ trimmed.session.classToSource := by
    rw [commits.dropped, Std.ExtTreeMap.mem_iff_isSome_getElem?, Option.isSome_iff_exists]
    rintro ⟨other, still⟩
    exact (((tidy.paired.loses_foldl_dropSource _).classes name other).mp still).2
      ⟨source, taken, recorded⟩
  have known : name ∈ opened.session.classToSource := by
    obtain ⟨owner, owned, -⟩ := (tidy.paired _ _).mp recorded
    rw [Std.ExtTreeMap.mem_iff_isSome_getElem?, owned]
    rfl
  exact (commits.clears_refreshed tidy).isFile
    ((commits.trims tidy).gone tidy.honest tidy.legible name known lost path isOutput)

theorem gone_of_compiled
    (computes : recompileSet opened.session toolchain files request.sources = .ok compiled)
    {source : Path} (again : source ∈ compiled)
    (recorded : opened.session.recordedType? source = some name)
    (undeclared : ∀ other ∈ compiled.toList,
      toolchain.typeDeclaredBy opened.world.files other ≠ .ok name)
    (isOutput : Outputs.IsOutput request.outputRoot name toolchain.outputExtension path) :
    learned.world.files.isFile path = false := by
  obtain ⟨spelled, listedAgain, same⟩ := (PathSet.exists_mem_toList _ _).mp again
  refine (commits.refreshed_gone tidy).2 spelled listedAgain name ?_ ?_ path isOutput
  · rw [commits.dropped, tidy.paired.recordedType?_foldl_dropSource, Session.recordedType?, same]
    · exact recorded
    · intro gone member
      rw [same]
      exact location_ne_of_mem_recompileSet computes again gone (List.mem_of_mem_filter member)
  · intro other listed declares
    exact undeclared other listed ((commits.declares_iff tidy listed).mp declares)

theorem gone
    (covers : ∀ (name : String) (source : Path),
      opened.session.classToSource[name]? = some source → source ∈ request.sources)
    (computes : recompileSet opened.session toolchain files request.sources = .ok compiled)
    {source : Path} (recorded : opened.session.recordedType? source = some name)
    (dead : ¬IsLive opened.session toolchain opened.world.files request.sources compiled name)
    (isOutput : Outputs.IsOutput request.outputRoot name toolchain.outputExtension path) :
    next.world.files.isFile path = false := by
  have isTypeName := (tidy.recorded source name recorded).isTypeName
  have undeclared : ∀ other ∈ compiled.toList,
      toolchain.typeDeclaredBy opened.world.files other ≠ .ok name :=
    fun other listed declares =>
      dead (.declared (exists_present_of_mem_recompileSet covers computes listed) listed declares)
  obtain ⟨owner, owned, -⟩ := (tidy.paired _ _).mp recorded
  have recorded := tidy.paired.recordedType?_of_classToSource owned
  obtain ⟨state, stands⟩ := Option.isSome_iff_exists.mp
    (Std.ExtTreeMap.mem_iff_isSome_getElem?.mp (covers name owner owned))
  obtain ⟨listedOwner, listed, here⟩ := (PathMap.getElem?_eq_some_iff ..).mp stands
  have recordedListed : opened.session.recordedType? listedOwner = some name := by
    rwa [Session.recordedType?, here]
  have forgotten : learned.world.files.isFile path = false := by
    by_cases removed : state = .removed
    · have member : listedOwner ∈ request.sources.inState [.removed] :=
        SourceStates.mem_inState.mpr ⟨state, by simp [removed], listed⟩
      exact commits.gone_of_removed tidy member recordedListed undeclared isOutput
    · have present : listedOwner ∈ request.sources.present :=
        SourceStates.mem_inState.mpr ⟨state, by cases state <;> simp_all, listed⟩
      by_cases again : listedOwner ∈ compiled
      · exact commits.gone_of_compiled tidy computes again recordedListed undeclared isOutput
      · exact absurd (.kept present again recordedListed) dead
  have persisted := (Session.ends_persist_output tidy.isCacheFile tidy.own tidy.lasting tidy.plain
    isTypeName isOutput learned).of_ok commits.persists
  have wellFormed := (commits.clears_refreshed tidy).wellFormed (commits.wellFormed_trimmed tidy)
  exact persisted.2.isFile wellFormed (persisted.1.wellFormed wellFormed)
    (isOutput.below tidy.plain isTypeName tidy.own.whole).plain forgotten

end Commits

/-! ## Building -/

/-- When an incremental build succeeds, the commit has kept every output of the types that present
sources stand for, and of the recorded types that none of them stands for nothing is left.  It does
not matter which types were removed, renamed, moved or swapped. -/
theorem live_outputs_stay_and_dead_ones_go {opened next : OpenSession} {compiled : World}
    {found : Plan} {report : BuildReport}
    (tidy : Tidy toolchain request ⟨opened.session, compiled⟩)
    (covers : ∀ (name : String) (source : Path),
      opened.session.classToSource[name]? = some source → source ∈ request.sources)
    (plans : plan opened.session toolchain opened.world.files request = .ok found)
    (compiles : compileAny toolchain request found.precompiled found.recompile opened.world =
      .ok 0 compiled)
    (declared : ∀ source ∈ found.recompile.toList, ∀ name,
      toolchain.typeDeclaredBy compiled.files source = .ok name → IsTopLevel name)
    (builds : incremental toolchain request opened = .ok report next) :
    (∀ name, IsLive opened.session toolchain compiled.files request.sources found.recompile name →
      ∀ path, Outputs.IsOutput request.outputRoot name toolchain.outputExtension path →
      ∀ content, compiled.files.read path = .ok content →
        next.world.files.read path = .ok content) ∧
    ∀ source name, opened.session.recordedType? source = some name →
      ¬IsLive opened.session toolchain compiled.files request.sources found.recompile name →
      ∀ path, Outputs.IsOutput request.outputRoot name toolchain.outputExtension path →
        next.world.files.isFile path = false := by
  have succeeds : commit toolchain request found.recompile ⟨opened.session, compiled⟩ =
      .ok () next := by
    simp only [incremental, bind, EStateM.bind, consult, outside, plans, compiles, if_true] at builds
    cases committed : commit toolchain request found.recompile ⟨opened.session, compiled⟩ with
    | ok value last =>
        rw [committed] at builds
        rw [(EStateM.Result.ok.inj builds).2]
    | error error last =>
        rw [committed] at builds
        cases builds
  obtain ⟨again, trimmed, learned, commits⟩ := exists_of_commit_eq_ok succeeds
  obtain ⟨set, computes, -⟩ := bind_eq_ok.mp plans
  obtain rfl := recompile_of_plan computes plans
  constructor
  · intro name live path isOutput content reads
    have isTopLevel : IsTopLevel name := by
      cases live with
      | declared _ listed declares => exact declared _ listed name declares
      | kept _ _ recorded => exact tidy.recorded _ name recorded
    exact (commits.leaves tidy live isTopLevel isOutput).read tidy.wellFormed
      (isOutput.below tidy.plain isTopLevel.isTypeName tidy.own.whole).plain reads
  · intro source name recorded dead path isOutput
    exact commits.gone tidy covers computes recorded dead isOutput

section Shuffled

theorem readsSources_plainText : PlainText.toolchain.ReadsSources where
  reads files path name declares := by
    obtain ⟨text, readsText, -⟩ := bind_eq_ok.mp declares
    cases reads : files.read path with
    | ok content => exact ⟨content, rfl⟩
    | error fault =>
        rw [readText, reads] at readsText
        cases readsText
  determined before after path content reads readsAfter := by
    simp only [PlainText.toolchain, PlainText.typeDeclaredBy, readText, reads, readsAfter]

/-- The type `B` has moved to the source of `A`, and the sources of `C` and `D` have swapped their
types. -/
def shuffled : OpenSession where
  session := .ofStored (Std.ExtTreeMap.ofList
    [("A", ⟨"src/A.java"⟩), ("B", ⟨"src/B.java"⟩), ("C", ⟨"src/C.java"⟩), ("D", ⟨"src/D.java"⟩),
      ("E", ⟨"src/E.java"⟩)] compare) .empty
  world :=
    { files :=
        { entries := Std.ExtTreeMap.ofList
            [(["out"], .directory), (["out", "A.class"], .file []), (["out", "B.class"], .file []),
              (["out", "B$Y.class"], .file []), (["out", "C.class"], .file []),
              (["out", "D.class"], .file []), (["out", "E.class"], .file []), (["src"], .directory),
              (["src", "A.java"], .file (Text.Utf8.encode "B\nnested Y")),
              (["src", "C.java"], .file (Text.Utf8.encode "D")),
              (["src", "D.java"], .file (Text.Utf8.encode "C")),
              (["src", "E.java"], .file (Text.Utf8.encode "E"))] compare
          host := { workingDirectory := [] } } }

def shuffledRequest : BuildRequest where
  classpath := ∅
  classpathChanged := false
  outputRoot := ⟨"out"⟩
  cacheFile := ⟨"cache/solver.bin"⟩
  sources := Std.ExtTreeMap.ofList
    [(⟨"src/A.java"⟩, .changed), (⟨"src/B.java"⟩, .removed), (⟨"src/C.java"⟩, .changed),
      (⟨"src/D.java"⟩, .changed), (⟨"src/E.java"⟩, .notChanged)] compare

/-- The sources that changed and are not gone, and the unit of the one that did not change. -/
def shuffledPlan : Plan where
  recompile := (PathSet.ofList [⟨"src/A.java"⟩, ⟨"src/C.java"⟩, ⟨"src/D.java"⟩]).filter fun path =>
    !(PathSet.ofList [⟨"src/B.java"⟩]).contains path
  precompiled := PathSet.ofList [⟨"out/E.class"⟩]

def shuffledCompiled : World :=
  stateAfter (compileAny PlainText.toolchain shuffledRequest shuffledPlan.precompiled
    shuffledPlan.recompile) shuffled.world

def shuffledNext : OpenSession :=
  stateAfter (commit PlainText.toolchain shuffledRequest shuffledPlan.recompile)
    ⟨shuffled.session, shuffledCompiled⟩

private theorem impactOf_of_empty {session : Session} {files : FileSystem} {source : Path}
    (alone : session.graph = .empty)
    (around : (session.typesAround toolchain files source).toOption.isSome) :
    session.impactOf toolchain files source = .ok ∅ := by
  have nothing : ∀ name, (session.graph.impact name).toList = [] := by
    intro name
    rw [alone, Dependency.Graph.impact_of_publicDependents_eq_nil rfl]
    rfl
  have none : ∀ names : Names,
      (names.toList.flatMap fun name => (session.graph.impact name).toList) = [] :=
    fun names => List.flatMap_eq_nil_iff.mpr fun name _ => nothing name
  obtain ⟨names, found⟩ := Option.isSome_iff_exists.mp around
  simp only [Session.impactOf, eq_ok_of_toOption found, bind, Except.bind, none]
  rfl

theorem plan_shuffled :
    plan shuffled.session PlainText.toolchain shuffled.world.files shuffledRequest =
      .ok shuffledPlan := by
  have listed : shuffledRequest.sources.toList =
      [(⟨"src/A.java"⟩, .changed), (⟨"src/B.java"⟩, .removed), (⟨"src/C.java"⟩, .changed),
        (⟨"src/D.java"⟩, .changed), (⟨"src/E.java"⟩, .notChanged)] := by
    decide +kernel
  have around : ∀ entry ∈ shuffledRequest.sources.toList, (shuffled.session.typesAround
      PlainText.toolchain shuffled.world.files entry.1).toOption.isSome := by
    decide +kernel
  have impacts : ∀ entry ∈ shuffledRequest.sources.toList, shuffled.session.impactOf
      PlainText.toolchain shuffled.world.files entry.1 = .ok ∅ :=
    fun entry member => impactOf_of_empty rfl (around entry member)
  rw [listed] at impacts
  simp only [List.forall_mem_cons] at impacts
  obtain ⟨a, b, c, d, -⟩ := impacts
  have gone : shuffledRequest.sources.inState [.removed] = [⟨"src/B.java"⟩] := by
    decide +kernel
  have recompiles : recompileSet shuffled.session PlainText.toolchain shuffled.world.files
      shuffledRequest.sources = .ok shuffledPlan.recompile := by
    rw [recompileSet, listed, gone]
    simp only [List.mapM_cons, List.mapM_nil, reached, a, b, c, d]
    rfl
  have kept : (shuffledRequest.sources.present.filter fun path =>
      !shuffledPlan.recompile.contains path) = [⟨"src/E.java"⟩] := by
    decide +kernel
  have outputs : shuffled.session.outputsOf PlainText.toolchain shuffled.world.files
      shuffledRequest.outputRoot ⟨"src/E.java"⟩ = .ok [⟨"out/E.class"⟩] :=
    eq_ok_of_toOption (by decide +kernel)
  rw [plan, recompiles]
  simp only [bind, Except.bind, kept, List.mapM_cons, List.mapM_nil, outputs]
  rfl

private theorem shuffled_holds :
    (outcome? (compileAny PlainText.toolchain shuffledRequest shuffledPlan.precompiled
      shuffledPlan.recompile) shuffled.world).map (·.1) = some 0 ∧
    returns (commit PlainText.toolchain shuffledRequest shuffledPlan.recompile)
      ⟨shuffled.session, shuffledCompiled⟩ ∧
    shuffled.session.Paired ∧ shuffledCompiled.files.WellFormed ∧
    shuffledCompiled.files.refusals = [] ∧ shuffledCompiled.files.Legible ∧
    shuffledRequest.outputRoot.Plain ∧ (⟨"cache"⟩ : Path).Plain ∧ IsName "solver" ∧
    (∀ entry ∈ shuffled.session.classToSource.toList, IsTopLevel entry.1) ∧
    (∀ entry ∈ shuffled.session.classToSource.toList,
      shuffledRequest.sources.contains entry.2) ∧
    (∀ source ∈ shuffledPlan.recompile.toList,
      (PlainText.typeDeclaredBy shuffledCompiled.files source).toOption.all
        (fun name => decide (IsTopLevel name))) ∧
    shuffledCompiled.files.read ⟨"out/B$Y.class"⟩ = .ok [] ∧
    shuffledCompiled.files.isFile ⟨"out/A.class"⟩ ∧
    shuffled.session.recordedType? ⟨"src/A.java"⟩ = some "A" ∧
    (∀ source ∈ shuffledPlan.recompile.toList,
      (PlainText.typeDeclaredBy shuffledCompiled.files source).toOption ≠ some "A") ∧
    (∀ source ∈ shuffledRequest.sources.present, source ∉ shuffledPlan.recompile →
      shuffled.session.recordedType? source ≠ some "A") ∧
    (PlainText.typeDeclaredBy shuffledCompiled.files ⟨"src/A.java"⟩).toOption = some "B" ∧
    ⟨"src/A.java"⟩ ∈ shuffledPlan.recompile.toList ∧
    ⟨"src/A.java"⟩ ∈ shuffledRequest.sources.present := by
  decide +kernel

/-- What moved to another source keeps its outputs, and the type that nothing declares any more
loses its own. -/
theorem live_outputs_stay_and_dead_ones_go_shuffled :
    ∃ report, incremental PlainText.toolchain shuffledRequest shuffled = .ok report shuffledNext ∧
      shuffledNext.world.files.read ⟨"out/B$Y.class"⟩ = .ok [] ∧
      shuffledCompiled.files.isFile ⟨"out/A.class"⟩ ∧
      shuffledNext.world.files.isFile ⟨"out/A.class"⟩ = false := by
  obtain ⟨compiles, commits, paired, wellFormed, honest, legible, plain, plainCache, isName, topLevel,
    covers, declared, nested, there, recorded, undeclared, unkept, declares, listed, present⟩ :=
    shuffled_holds
  have compiled : compileAny PlainText.toolchain shuffledRequest shuffledPlan.precompiled
      shuffledPlan.recompile shuffled.world = .ok 0 shuffledCompiled := by
    obtain ⟨⟨code, world⟩, ends, rfl⟩ := Option.map_eq_some_iff.mp compiles
    have ends := eq_ok_of_outcome? ends
    rw [shuffledCompiled, stateAfter, ends]
  obtain ⟨_, committed⟩ := exists_of_returns commits
  have builds : incremental PlainText.toolchain shuffledRequest shuffled =
      .ok ⟨.incremental, 0, shuffledPlan.recompile⟩ shuffledNext := by
    simp only [incremental, bind, EStateM.bind, SessionAction.consult, SessionAction.outside,
      plan_shuffled, compiled, committed, if_true]
    rfl
  have tidy : Tidy PlainText.toolchain shuffledRequest ⟨shuffled.session, shuffledCompiled⟩ :=
    { own := ⟨by decide, by decide, by decide, by decide⟩
      outer := by decide
      lasting := by decide
      readsSources := readsSources_plainText
      plain := plain
      isCacheFile := ⟨⟨"cache"⟩, "solver", plainCache, isName, rfl⟩
      paired := paired
      recorded := by
        intro source name recorded
        obtain ⟨owner, owned, -⟩ := (paired _ _).mp recorded
        exact topLevel _ (Std.ExtTreeMap.mem_toList_iff_getElem?_eq_some.mpr owned)
      wellFormed := wellFormed
      honest := by simp [honest]
      legible := legible.below _ }
  have coversAll : ∀ (name : String) (source : Path),
      shuffled.session.classToSource[name]? = some source → source ∈ shuffledRequest.sources := by
    intro name source owned
    simpa using covers _ (Std.ExtTreeMap.mem_toList_iff_getElem?_eq_some.mpr owned)
  have declaredTopLevel : ∀ source ∈ shuffledPlan.recompile.toList, ∀ name,
      PlainText.toolchain.typeDeclaredBy shuffledCompiled.files source = .ok name →
        IsTopLevel name := by
    intro source member name found
    have all := declared source member
    rw [show PlainText.typeDeclaredBy shuffledCompiled.files source = .ok name from found] at all
    simpa [Except.toOption] using all
  obtain ⟨stay, go⟩ := live_outputs_stay_and_dead_ones_go tidy coversAll plan_shuffled compiled
    declaredTopLevel builds
  refine ⟨_, builds, stay "B" (.declared ⟨_, present, rfl⟩ listed ?_) _ (.inr ⟨"B$Y.class", ?_⟩) _
    nested, there, go ⟨"src/A.java"⟩ "A" recorded ?_ _ (.inl (by decide +kernel))⟩
  · exact eq_ok_of_toOption declares
  · decide +kernel
  · rintro (⟨_, member, found⟩ | ⟨isPresent, untouched, found⟩)
    · exact undeclared _ member (by rw [show PlainText.typeDeclaredBy _ _ = _ from found]; rfl)
    · exact unkept _ isPresent untouched found

end Shuffled

end Build

end AbiBuild
