import AbiBuild.Proofs.Build.Commits
import AbiBuild.Proofs.Build.Incremental

/-!
# Bringing a session up to date

A session that reflects the sources as they were is brought to reflect them as they are.  A source
that is not compiled again is as it was, and every type that it mentions is still there.
-/

namespace AbiBuild.Build

open Files FileSystem Changes SessionAction

variable {language : Language} {toolchain : Toolchain} {layout : CacheLayout} {pair : RootPair}
  {directory : Path} {request : BuildRequest} {before now : List (String × Bytes)}
  {session : Session} {sources : SourceStates} {files : FileSystem} {untouched : List Path}

theorem exists_standsBetween {text : String}
    (listed : (∃ content, (text, content) ∈ before) ∨ ∃ content, (text, content) ∈ now) :
    ∃ state, StandsBetween before now text state := by
  by_cases was : ∃ content, (text, content) ∈ before
  · obtain ⟨old, known⟩ := was
    by_cases is : ∃ content, (text, content) ∈ now
    · obtain ⟨new, present⟩ := is
      by_cases same : old = new
      · subst same
        exact ⟨_, .notChanged known present⟩
      · exact ⟨_, .changed known present same⟩
    · exact ⟨_, .removed known (not_exists.mp is)⟩
  · obtain ⟨new, present⟩ := listed.resolve_left was
    exact ⟨_, .added (not_exists.mp was) present⟩

/-- The session reflects the sources as they were, and these are told to stand as they do. -/
structure Follows (language : Language) (toolchain : Toolchain) (layout : CacheLayout)
    (pair : RootPair) (before now : List (String × Bytes)) (session : Session)
    (sources : SourceStates) (files : FileSystem) : Prop where
  ready : Ready layout pair toolchain.sourceExtension now files
  located : Located pair.source toolchain.sourceExtension before
  covers : language.Covers before
  reflects : session.Reflects (language.surfaces before)
  names : ∀ path surface, language.surfaces before path = some surface →
    IsTypeName surface.1.className
  states : ∀ path state, (path, state) ∈ sources.toList ↔ StandsBetween before now path.text state

namespace Follows

variable (follows : Follows language toolchain layout pair before now session sources files)
include follows

theorem eq_of_location {path other : Path}
    (known : (∃ content, (path.text, content) ∈ before) ∨ ∃ content, (path.text, content) ∈ now)
    (knownOther : (∃ content, (other.text, content) ∈ before) ∨
      ∃ content, (other.text, content) ∈ now)
    (same : path.location = other.location) : path = other := by
  have located := follows.ready.lists.located
  have plain := known.elim follows.located.plain located.plain
  exact plain.eq_of_location (knownOther.elim follows.located.plain located.plain) same

theorem listed_of_isSome {path : Path}
    (known : (language.surfaces before path).isSome ∨ (language.surfaces now path).isSome) :
    (∃ content, (path.text, content) ∈ before) ∨ ∃ content, (path.text, content) ∈ now :=
  known.imp follows.located.exists_of_isSome follows.ready.lists.located.exists_of_isSome

theorem getElem?_eq_some {path : Path} {state : SourceState}
    (stands : StandsBetween before now path.text state) : sources[path]? = some state :=
  (PathMap.getElem?_eq_some_iff ..).mpr ⟨path, (follows.states path state).mpr stands, rfl⟩

theorem recordedType?_eq_some_iff {path : Path} {name : String}
    (known : (∃ content, (path.text, content) ∈ before) ∨ ∃ content, (path.text, content) ∈ now) :
    session.recordedType? path = some name ↔
      ∃ surface, language.surfaces before path = some surface ∧ surface.1.className = name := by
  rw [follows.reflects.recordedType?_eq_some_iff]
  constructor
  · rintro ⟨source, surface, found, named, here⟩
    have first := follows.listed_of_isSome (.inl (by rw [found]; rfl))
    obtain rfl := follows.eq_of_location first known here
    exact ⟨surface, found, named⟩
  · rintro ⟨surface, found, named⟩
    exact ⟨path, surface, found, named, rfl⟩

theorem records : session.RecordsTypes := by
  intro source name recorded
  obtain ⟨path, surface, found, named, -⟩ :=
    (follows.reflects.recordedType?_eq_some_iff source name).mp recorded
  rw [← named]
  exact follows.names path surface found

omit follows in
theorem surfaces_eq (language : Language) {path : Path} {content : Bytes} (located : Located root extension before)
    (located' : Located root extension now) (known : (path.text, content) ∈ before)
    (present : (path.text, content) ∈ now) :
    language.surfaces before path = language.surfaces now path := by
  rw [Language.surfaces_of_mem located.distinct known,
    Language.surfaces_of_mem located'.distinct present]

theorem surface_of_standsFor? (serves : toolchain.Serves language pair.output untouched)
    {entry : Path × SourceState} (listed : entry ∈ sources.toList) {name : String}
    (stands : standsFor? session toolchain files entry = some name) :
    ∃ surface, language.surfaces now entry.1 = some surface ∧ surface.1.className = name := by
  obtain ⟨path, state⟩ := entry
  have declared : ∀ {content}, (path.text, content) ∈ now →
      (if files.pathExists path then (toolchain.typeDeclaredBy files path).toOption else none) =
        some name → ∃ surface, language.surfaces now path = some surface ∧
          surface.1.className = name := by
    intro content present declares
    rw [Option.ite_none_right_eq_some] at declares
    cases result : toolchain.typeDeclaredBy files path with
    | error error =>
        rw [result] at declares
        cases declares.2
    | ok other =>
        rw [result] at declares
        obtain rfl := Option.some.inj declares.2
        obtain ⟨content, surface, -, taken, found, named⟩ :=
          follows.ready.surface_of_declares serves ⟨content, present⟩ result
        exact ⟨surface, by rw [Language.surfaces_of_mem follows.ready.lists.distinct taken, found],
          named⟩
  cases (follows.states path state).mp listed with
  | added fresh present => exact declared present stands
  | removed known gone => cases stands
  | changed known present different => exact declared present stands
  | notChanged known present =>
      obtain ⟨surface, found, named⟩ :=
        (follows.recordedType?_eq_some_iff (.inl ⟨_, known⟩)).mp stands
      rw [surfaces_eq language follows.located follows.ready.lists.located known present] at found
      exact ⟨surface, found, named⟩

theorem consistent (serves : toolchain.Serves language pair.output untouched)
    (sound : Sound (language.surfaces now)) {set : PathSet}
    (computes : recompileSet session toolchain files sources = .ok set) :
    Consistent session toolchain files sources where
  recorded name source owned := by
    obtain ⟨surface, found, -⟩ := (follows.reflects.classes name source).mp owned
    obtain ⟨state, stands⟩ :=
      exists_standsBetween (follows.listed_of_isSome (.inl (by rw [found]; rfl)))
    rw [Std.ExtTreeMap.mem_iff_isSome_getElem?, follows.getElem?_eq_some stands]
    rfl
  gone path listed := by
    cases (follows.states path .removed).mp listed with
    | removed known gone =>
        cases present : files.pathExists path with
        | false => rfl
        | true =>
            -- A path that exists again has to declare a type, so it is a source after all.
            obtain ⟨found, each, -⟩ := bind_eq_ok.mp computes
            obtain ⟨paths, -, reaches⟩ := exists_of_mem_values each listed
            obtain ⟨affected, impacts⟩ := impactOf_of_reached reaches (.inr rfl)
            obtain ⟨names, around, -⟩ := bind_eq_ok.mp impacts
            rw [Session.typesAround, present, if_pos rfl] at around
            cases declares : toolchain.typeDeclaredBy files path with
            | error error =>
                rw [declares] at around
                cases around
            | ok name =>
                obtain ⟨content, surface, reads, -⟩ := serves.resolves _ _ _ declares
                have below := follows.located.below path _ known
                rw [read_eq_ok follows.ready.wellFormed below.plain] at reads
                have source : IsSource files pair.source toolchain.sourceExtension path content :=
                  ⟨below, follows.located.extension path _ known, reads.2.1⟩
                exact absurd ((follows.ready.lists.member path content).mpr source) (gone content)
  apart first hfirst second hsecond name standsFirst standsSecond := by
    obtain ⟨surface, found, named⟩ := follows.surface_of_standsFor? serves hfirst standsFirst
    obtain ⟨other, foundOther, namedOther⟩ :=
      follows.surface_of_standsFor? serves hsecond standsSecond
    have same := sound.apart _ _ _ _ found foundOther (named.trans namedOther.symm)
    exact PathMap.eq_of_mem_toList hfirst hsecond (by rw [same])

theorem listed_of_mem_recompileSet {set : PathSet}
    (computes : recompileSet session toolchain files sources = .ok set) {path : Path}
    (member : path ∈ set.toList) : ∃ content, (path.text, content) ∈ now := by
  obtain ⟨known, kept⟩ := known_of_mem_recompileSet computes member
  have here : ∀ {state}, StandsBetween before now path.text state → state ≠ .removed →
      ∃ content, (path.text, content) ∈ now := by
    intro state stands different
    cases stands with
    | added fresh present => exact ⟨_, present⟩
    | removed known gone => exact absurd rfl different
    | changed known present different => exact ⟨_, present⟩
    | notChanged known present => exact ⟨_, present⟩
  rcases known with added | changed | ⟨name, owned⟩
  · exact here ((follows.states path _).mp added) (by decide)
  · exact here ((follows.states path _).mp changed) (by decide)
  · obtain ⟨surface, found, -⟩ := (follows.reflects.classes name path).mp owned
    obtain ⟨state, stands⟩ :=
      exists_standsBetween (follows.listed_of_isSome (.inl (by rw [found]; rfl)))
    refine here stands ?_
    rintro rfl
    exact kept ((follows.states path _).mpr stands)

theorem mem_set_iff (serves : toolchain.Serves language pair.output untouched)
    (sound : Sound (language.surfaces now)) {set : PathSet}
    (computes : recompileSet session toolchain files sources = .ok set) (path : Path) :
    path ∈ set ↔ MustCompile session toolchain files sources path :=
  mem_recompileSet follows.reflects.paired follows.reflects.healthy.mirrored
    (follows.consistent serves sound computes) computes path

theorem notChanged_of_not_mem (serves : toolchain.Serves language pair.output untouched)
    (sound : Sound (language.surfaces now)) {set : PathSet}
    (computes : recompileSet session toolchain files sources = .ok set) {path : Path}
    (present : ∃ content, (path.text, content) ∈ now) (apart : path ∉ set) :
    StandsBetween before now path.text .notChanged := by
  have exact := follows.mem_set_iff serves sound computes path
  have stood : ∃ state, StandsBetween before now path.text state :=
    exists_standsBetween (.inr present)
  obtain ⟨state, stands⟩ := stood
  have state' := follows.getElem?_eq_some stands
  cases stands with
  | added fresh present => exact absurd (exact.mpr (.inl state')) apart
  | removed known gone =>
      obtain ⟨content, present⟩ := present
      exact absurd present (gone content)
  | changed known present different => exact absurd (exact.mpr (.inr (.inl state'))) apart
  | notChanged known present => exact .notChanged known present

theorem mem_toList_of_mem {set : PathSet}
    (computes : recompileSet session toolchain files sources = .ok set) {path : Path}
    (present : ∃ content, (path.text, content) ∈ now) (member : path ∈ set) :
    path ∈ set.toList := by
  obtain ⟨other, listed, here⟩ := (PathSet.exists_mem_toList set path).mp member
  have known := follows.listed_of_mem_recompileSet computes listed
  rwa [follows.eq_of_location (.inr known) (.inr present) here] at listed

theorem exists_learned {set : PathSet}
    (computes : recompileSet session toolchain files sources = .ok set)
    {learned : List (Session.Declaration × SourceAbi)}
    (compiled : learned.map (·.1.source) = set.toList) {path : Path}
    (present : ∃ content, (path.text, content) ∈ now) (member : path ∈ set) :
    ∃ entry ∈ learned, entry.1.source = path := by
  have listed := follows.mem_toList_of_mem computes present member
  rw [← compiled, List.mem_map] at listed
  exact listed

theorem notChanged_of_untouched (serves : toolchain.Serves language pair.output untouched)
    (sound : Sound (language.surfaces now)) {set : PathSet}
    (computes : recompileSet session toolchain files sources = .ok set)
    {learned : List (Session.Declaration × SourceAbi)}
    (compiled : learned.map (·.1.source) = set.toList) {path : Path}
    (present : ∃ content, (path.text, content) ∈ now)
    (untouched : ∀ entry ∈ learned, entry.1.source ≠ path) :
    path ∉ set ∧ StandsBetween before now path.text .notChanged := by
  have apart : path ∉ set := by
    intro member
    obtain ⟨entry, taken, same⟩ := follows.exists_learned computes compiled present member
    exact untouched entry taken same
  exact ⟨apart, follows.notChanged_of_not_mem serves sound computes present apart⟩

theorem covers_now (serves : toolchain.Serves language pair.output untouched)
    (sound : Sound (language.surfaces now)) {set : PathSet}
    (computes : recompileSet session toolchain files sources = .ok set)
    {learned : List (Session.Declaration × SourceAbi)}
    (compiled : learned.map (·.1.source) = set.toList)
    (shows : ShowsSurfaces (language.surfaces now) learned) : language.Covers now := by
  rintro ⟨text, content⟩ listed
  have distinct := follows.ready.lists.distinct
  by_cases taken : ∃ entry ∈ learned, entry.1.source = ⟨text⟩
  · obtain ⟨entry, member, same⟩ := taken
    obtain ⟨surface, found, -⟩ := shows entry member
    rw [same, Language.surfaces_of_mem distinct listed] at found
    rw [found]
    rfl
  · have untouched : ∀ entry ∈ learned, entry.1.source ≠ ⟨text⟩ := by simpa using taken
    cases (follows.notChanged_of_untouched serves sound computes compiled ⟨content, listed⟩
      untouched).2 with
    | notChanged known present =>
        rw [eq_of_mem_contents distinct listed present]
        exact follows.covers _ known

theorem differs_of_lost {removed : List Path} {learned : List (Session.Declaration × SourceAbi)}
    (gone : ∀ {path}, path ∈ removed → StandsBetween before now path.text .removed)
    (shows : ShowsSurfaces (language.surfaces now) learned) {type : String}
    (lost : Session.Lost (language.surfaces before) removed learned type) :
    Differs session toolchain files sources type := by
  have located := follows.ready.lists.located
  rcases lost with ⟨path, member, surface, old, named⟩ | ⟨⟨entry, member, surface, old, named⟩, kept⟩
  · have was := follows.located.exists_of_isSome (by rw [old]; rfl)
    exact ⟨(path, .removed), (follows.states path .removed).mpr (gone member), .inl ⟨.inr rfl,
      (follows.recordedType?_eq_some_iff (.inl was)).mpr ⟨surface, old, named⟩⟩⟩
  · obtain ⟨other, new, -, declares⟩ := shows entry member
    have was := follows.located.exists_of_isSome (by rw [old]; rfl)
    have is := located.exists_of_isSome (by rw [new]; rfl)
    have stood : ∃ state, StandsBetween before now entry.1.source.text state :=
      exists_standsBetween (.inl was)
    obtain ⟨state, stands⟩ := stood
    have listed := (follows.states entry.1.source state).mpr stands
    cases stands with
    | added fresh present => exact absurd was.choose_spec (fresh _)
    | removed known missing => exact absurd is.choose_spec (missing _)
    | changed known present different =>
        exact ⟨_, listed, .inl ⟨.inl rfl,
          (follows.recordedType?_eq_some_iff (.inl was)).mpr ⟨surface, old, named⟩⟩⟩
    | notChanged known present =>
        have same := surfaces_eq language follows.located located known present
        rw [old, new] at same
        refine absurd ?_ (kept entry member)
        rw [declares, ← Option.some.inj same, named]

theorem stands_removed {path : Path} (listed : path ∈ sources.inState [.removed]) :
    StandsBetween before now path.text .removed := by
  have member := SourceStates.mem_inState.mp listed
  simp only [List.mem_singleton, exists_eq_left] at member
  exact (follows.states path .removed).mp member

section TakingIn

variable (serves : toolchain.Serves language pair.output untouched)
  (sound : Sound (language.surfaces now)) {set : PathSet}
  (computes : recompileSet session toolchain files sources = .ok set)
  {learned : List (Session.Declaration × SourceAbi)}
  (compiled : learned.map (·.1.source) = set.toList)
  (shows : ShowsSurfaces (language.surfaces now) learned)
include serves sound computes compiled shows

theorem removed_or_declared {declared : List String}
    (declares : ∀ name ∈ declared, ∃ entry ∈ learned, entry.1.name = name) {path : Path}
    {surface : PartitionedAbi} (found : language.surfaces before path = some surface)
    (missing : language.surfaces now path = none) :
    path ∈ (sources.inState [.removed]).filter (fun source => !wasMoved session declared source) ∨
      ∃ entry ∈ learned, entry.1.name = surface.1.className := by
  have located := follows.ready.lists.located
  have known := follows.located.exists_of_isSome (by rw [found]; rfl)
  have recorded := (follows.recordedType?_eq_some_iff (.inl known)).mpr ⟨surface, found, rfl⟩
  obtain ⟨old, known⟩ := known
  have stood : ∃ state, StandsBetween before now path.text state :=
    exists_standsBetween (.inl ⟨old, known⟩)
  obtain ⟨state, stands⟩ := stood
  cases stands with
  | added fresh present => exact absurd known (fresh old)
  | removed was gone =>
      have listed : path ∈ sources.inState [.removed] :=
        SourceStates.mem_inState.mpr ⟨.removed, by simp,
          (follows.states path .removed).mpr (.removed was gone)⟩
      by_cases moved : wasMoved session declared path
      · rw [wasMoved, recorded, Option.any_some, List.contains_iff_mem] at moved
        exact .inr (declares _ moved)
      · exact .inl (List.mem_filter.mpr ⟨listed, by simpa using moved⟩)
  | changed was present different =>
      have compiles := (follows.mem_set_iff serves sound computes path).mpr
        (.inr (.inl (follows.getElem?_eq_some (.changed was present different))))
      obtain ⟨entry, member, rfl⟩ := follows.exists_learned computes compiled ⟨_, present⟩ compiles
      obtain ⟨other, found', -⟩ := shows entry member
      rw [missing] at found'
      cases found'
  | notChanged was present =>
      rw [surfaces_eq language follows.located located was present, missing] at found
      cases found

theorem not_lost {removed : List Path}
    (gone : ∀ {path}, path ∈ removed → StandsBetween before now path.text .removed) {path : Path}
    {surface : PartitionedAbi} (found : language.surfaces now path = some surface)
    (untouched : ∀ entry ∈ learned, entry.1.source ≠ path) {type : String} {isPrivate : Bool}
    (mentions : (type, isPrivate) ∈ surface.1.referencedTypes) :
    ¬Session.Lost (language.surfaces before) removed learned type := by
  intro lost
  have located := follows.ready.lists.located
  obtain ⟨apart, stands⟩ := follows.notChanged_of_untouched serves sound computes compiled
    (located.exists_of_isSome (by rw [found]; rfl)) untouched
  refine apart ((follows.mem_set_iff serves sound computes path).mpr
    (.inr (.inr ⟨follows.getElem?_eq_some stands, surface.1.className, type, ?_⟩)))
  cases stands with
  | notChanged was present =>
      have old := surfaces_eq language follows.located located was present
      rw [found] at old
      exact ⟨(follows.recordedType?_eq_some_iff (.inl ⟨_, was⟩)).mpr ⟨surface, old, rfl⟩,
        ⟨type, isPrivate, (follows.reflects.depends _ _ _).mpr
          ⟨path, surface, old, rfl, mentions⟩, .refl⟩,
        follows.differs_of_lost gone shows lost⟩

/-- Removing the sources that are gone and were not moved, and taking in the compiled ones, leads
from the old surfaces to the new ones. -/
theorem replaces {declared : List String}
    (declares : ∀ name ∈ declared, ∃ entry ∈ learned, entry.1.name = name) :
    Session.Replaces (language.surfaces before) (language.surfaces now)
      ((sources.inState [.removed]).filter fun source => !wasMoved session declared source)
      learned := by
  have located := follows.ready.lists.located
  have removed : ∀ {path}, path ∈ (sources.inState [.removed]).filter
      (fun source => !wasMoved session declared source) →
      StandsBetween before now path.text .removed :=
    fun member => follows.stands_removed (List.mem_of_mem_filter member)
  refine ⟨?_, shows, ?_, ?_, ?_, ?_⟩
  · intro path other known listed here
    refine follows.eq_of_location (follows.listed_of_isSome known) ?_ here
    rcases listed with member | found
    · cases removed member with
      | removed known gone => exact .inl ⟨_, known⟩
    · exact follows.listed_of_isSome (.inr found)
  · intro path member
    cases removed member with
    | removed known gone =>
        cases found : language.surfaces now path with
        | none => rfl
        | some surface =>
            obtain ⟨content, present⟩ := located.exists_of_isSome (by rw [found]; rfl)
            exact absurd present (gone content)
  · intro path untouched found
    cases (follows.notChanged_of_untouched serves sound computes compiled
      (located.exists_of_isSome found) untouched).2 with
    | notChanged known present => exact surfaces_eq language follows.located located known present
  · intro path surface found missing
    exact follows.removed_or_declared serves sound computes compiled shows declares found missing
  · intro path surface found untouched type isPrivate mentions
    exact follows.not_lost serves sound computes compiled shows removed found untouched mentions

end TakingIn

end Follows

/-! ## The build -/

theorem exists_entry_of_redeclared (serves : toolchain.Serves language pair.output untouched)
    {opened middle after : OpenSession} {set : PathSet} {removed : List Path}
    {declared : List String} {learned : List (Session.Declaration × SourceAbi)}
    (ready : Ready layout pair toolchain.sourceExtension now opened.world.files)
    (still : Ready layout pair toolchain.sourceExtension now middle.world.files)
    (listed : ∀ path ∈ set.toList, ∃ content, (path.text, content) ∈ now)
    (declares : redeclared session toolchain opened.world.files removed set = .ok declared)
    (refreshed : Session.Refreshed toolchain pair.output set.toList middle after learned) :
    ∀ name ∈ declared, ∃ entry ∈ learned, entry.1.name = name := by
  intro name member
  rw [redeclared] at declares
  split at declares
  next =>
    obtain rfl := Except.ok.inj declares
    cases member
  next =>
    obtain ⟨path, compiled, typed⟩ := exists_of_mem_results declares member
    have present := listed path compiled
    obtain ⟨entry, taken, rfl⟩ := refreshed.exists_entry compiled
    obtain ⟨content, surface, fits, source, found, named⟩ :=
      still.surface_of_declares serves present (refreshed.declared entry taken)
    have exists' := pathExists_of_read ((ready.read_eq_ok present).mpr ⟨fits, source⟩)
    rw [Session.typeOf, if_pos exists'] at typed
    obtain ⟨content', surface', -, source', found', named'⟩ :=
      ready.surface_of_declares serves present typed
    obtain rfl := eq_of_mem_contents ready.lists.distinct source source'
    rw [found] at found'
    obtain rfl := Option.some.inj found'
    exact ⟨entry, taken, named.symm.trans named'⟩

variable {opened : OpenSession}

theorem ends_commit (serves : toolchain.Serves language pair.output untouched)
    (output : request.outputRoot = pair.output)
    (cacheFile : request.cacheFile = layout.sessionFile pair directory)
    (follows : Follows language toolchain layout pair before now opened.session request.sources files)
    {set : PathSet}
    (computes : recompileSet opened.session toolchain files request.sources = .ok set)
    (ready : Ready layout pair toolchain.sourceExtension now opened.world.files)
    (genuine : Sound (language.surfaces now) → Genuine language pair.output
      toolchain.outputExtension set.toList now opened.world.files) :
    Ends (commit toolchain request set) opened
      (fun _ next => Stored language layout pair directory now opened.world.files
        next.world.files)
      (fun _ next => Quiet layout pair directory opened.world.files next.world.files) := by
  have disjoint := ready.disjoint
  have listed : ∀ path ∈ set.toList, ∃ content, (path.text, content) ∈ now :=
    fun path => follows.listed_of_mem_recompileSet computes
  refine ends_commit_of output (fun _ => Accumulates.refl opened.world.files) fun declared declares =>
    ((Session.ends_removeSources ..).and (Session.trims_removeSources disjoint.plainOutput
      serves.extension _ opened ready.wellFormed follows.records)).imp ?_ fun _ _ failed =>
        disjoint.quiet_of_output directory failed.2.files.toWithin
  rintro _ middle ⟨dropped, trims⟩
  have quiet := disjoint.quiet_of_output directory trims.files.toWithin
  have still := ready.keeps quiet.sources
  refine (ends_takeIn serves output cacheFile still (trims.records follows.records) ?_).imp
    (fun _ _ => quiet.stored) fun _ _ => Accumulates.trans quiet
  intro after learned refreshed clears sound
  have genuine' := (genuine sound).spares disjoint.plainOutput serves.extension
    ready.lists.distinct sound ready.wellFormed still.wellFormed trims.files.spares
  have shows := shows_of_refreshed serves still sound listed clears genuine' refreshed
  exact ⟨follows.covers_now serves sound computes refreshed.sources shows,
    follows.reflects.replaced (follows.replaces serves sound computes refreshed.sources shows
      (exists_entry_of_redeclared serves ready still listed declares refreshed)) sound.apart
      dropped refreshed⟩

theorem ends_incremental (serves : toolchain.Serves language pair.output [pair.source, layout.root])
    (output : request.outputRoot = pair.output)
    (cacheFile : request.cacheFile = layout.sessionFile pair directory)
    (follows : Follows language toolchain layout pair before now opened.session request.sources
      opened.world.files) :
    Ends (incremental toolchain request) opened
      (fun report next => Concludes language layout pair directory now opened.world.files report
        next.world.files)
      (fun _ next => Quiet layout pair directory opened.world.files next.world.files) := by
  have ready := follows.ready
  rw [incremental, ends_bind, ends_look]
  cases plans : plan opened.session toolchain opened.world.files request with
  | error error => exact Accumulates.refl opened.world.files
  | ok found =>
      obtain ⟨set, computes, -⟩ := bind_eq_ok.mp plans
      obtain rfl := recompile_of_plan computes plans
      refine ends_compiled ((ends_compileAny directory serves output ready found.precompiled
        fun path => follows.listed_of_mem_recompileSet computes).imp (fun _ _ => id)
          fun _ _ => id) ?_ ?_
      · rintro last same ⟨quiet, genuine⟩
        rw [← same] at follows computes
        refine (ends_commit serves output cacheFile follows computes (ready.keeps quiet.sources)
          (genuine rfl)).imp ?_ fun _ _ => Accumulates.trans quiet
        intro _ next stored
        exact ⟨fun _ => quiet.stored stored, fun bad => absurd rfl bad⟩
      · rintro exitCode world notices bad ⟨quiet, -⟩
        exact ⟨fun good => absurd good bad, fun _ => quiet⟩

/-! ## The choice -/

theorem mem_present_iff
    (states : ∀ path state, (path, state) ∈ sources.toList ↔ StandsBetween before now path.text state)
    (path : Path) : path ∈ sources.present ↔ ∃ content, (path.text, content) ∈ now := by
  rw [SourceStates.present, SourceStates.mem_inState]
  simp only [states]
  constructor
  · rintro ⟨state, wanted, stands⟩
    cases stands with
    | added fresh present => exact ⟨_, present⟩
    | removed known gone => simp at wanted
    | changed known present different => exact ⟨_, present⟩
    | notChanged known present => exact ⟨_, present⟩
  · rintro ⟨content, present⟩
    have stood : ∃ state, StandsBetween before now path.text state :=
      exists_standsBetween (.inr ⟨content, present⟩)
    obtain ⟨state, stands⟩ := stood
    refine ⟨state, ?_, stands⟩
    cases stands with
    | added fresh present => simp
    | removed known gone => exact absurd present (gone content)
    | changed known present different => simp
    | notChanged known present => simp

theorem notChanged_of_isUpToDate
    (states : ∀ path state, (path, state) ∈ sources.toList ↔ StandsBetween before now path.text state)
    (upToDate : isUpToDate sources) {text : String} {state : SourceState}
    (stands : StandsBetween before now text state) : state = .notChanged := by
  rw [isUpToDate, List.all_eq_true] at upToDate
  simpa using upToDate _ ((states ⟨text⟩ state).mpr stands)

theorem mem_before_of_isUpToDate
    (distinct : now.Pairwise fun first second => first.1 ≠ second.1)
    (states : ∀ path state, (path, state) ∈ sources.toList ↔ StandsBetween before now path.text state)
    (upToDate : isUpToDate sources) {text : String} {content : Bytes}
    (listed : (text, content) ∈ now) : (text, content) ∈ before := by
  have stood : ∃ state, StandsBetween before now text state :=
    exists_standsBetween (.inr ⟨content, listed⟩)
  obtain ⟨state, stands⟩ := stood
  obtain rfl := notChanged_of_isUpToDate states upToDate stands
  cases stands with
  | notChanged known present => rwa [eq_of_mem_contents distinct listed present]

theorem surfaces_eq_of_isUpToDate (located : Located root extension before)
    (located' : Located root extension now)
    (states : ∀ path state, (path, state) ∈ sources.toList ↔ StandsBetween before now path.text state)
    (upToDate : isUpToDate sources) : language.surfaces before = language.surfaces now := by
  funext path
  by_cases listed : (∃ content, (path.text, content) ∈ before) ∨
      ∃ content, (path.text, content) ∈ now
  · have stood : ∃ state, StandsBetween before now path.text state := exists_standsBetween listed
    obtain ⟨state, stands⟩ := stood
    obtain rfl := notChanged_of_isUpToDate states upToDate stands
    cases stands with
    | notChanged known present => exact Follows.surfaces_eq language located located' known present
  · rw [not_or] at listed
    have first : language.surfaces before path = none := by
      cases found : language.surfaces before path with
      | none => rfl
      | some surface => exact absurd (located.exists_of_isSome (by rw [found]; rfl)) listed.1
    have second : language.surfaces now path = none := by
      cases found : language.surfaces now path with
      | none => rfl
      | some surface => exact absurd (located'.exists_of_isSome (by rw [found]; rfl)) listed.2
    rw [first, second]

def IsSessionOf (surfaces : Path → Option PartitionedAbi) (octets : Bytes) : Prop :=
  ∃ session : Session, session.Reflects surfaces ∧ session.Storable ∧
    octets = session.toCacheData.encode

/-- What is stored agrees with the sources as they were. -/
structure Recalls (language : Language) (layout : CacheLayout) (pair : RootPair) (directory : Path)
    (before : List (String × Bytes)) (files : FileSystem) : Prop where
  nonempty : before ≠ []
  covers : language.Covers before
  names : ∀ path surface, language.surfaces before path = some surface →
    IsTypeName surface.1.className
  session : ∀ octets, files.read (layout.sessionFile pair directory) = .ok octets →
    IsSessionOf (language.surfaces before) octets

theorem lacksGraph_empty {source : String × Bytes} (member : source ∈ before)
    (states : ∀ path state, (path, state) ∈ sources.toList ↔ StandsBetween before now path.text state) :
    lacksGraph .empty sources := by
  have stood : ∃ state, StandsBetween before now source.1 state :=
    exists_standsBetween (.inl ⟨source.2, member⟩)
  obtain ⟨state, stands⟩ := stood
  rw [lacksGraph, Bool.and_eq_true, List.any_eq_true]
  refine ⟨rfl, (⟨source.1⟩, state), (states ⟨source.1⟩ state).mpr stands, ?_⟩
  cases stands with
  | added fresh present => exact absurd member (fresh _)
  | removed known gone => simp
  | changed known present different => simp
  | notChanged known present => simp

theorem Recalls.exists_of_load {session : Session}
    (recalls : Recalls language layout pair directory before files)
    (loads : Session.load files (layout.sessionFile pair directory) = .ok session) :
    ∃ stored : Session, stored.Reflects (language.surfaces before) ∧
      files.read (layout.sessionFile pair directory) = .ok stored.toCacheData.encode ∧
      session = .ofStored stored.classToSource stored.graph := by
  obtain ⟨octets, reads, -⟩ := bind_eq_ok.mp loads
  cases result : files.read (layout.sessionFile pair directory) with
  | error fault =>
      rw [result] at reads
      cases reads
  | ok found =>
      obtain ⟨stored, reflects, storable, rfl⟩ := recalls.session found result
      rw [Session.load_of_read storable result] at loads
      exact ⟨stored, reflects, rfl, (Except.ok.inj loads).symm⟩

theorem covers_of_isUpToDate (located' : Located root extension now)
    (states : ∀ path state, (path, state) ∈ sources.toList ↔ StandsBetween before now path.text state)
    (upToDate : isUpToDate sources) (covers : language.Covers before) : language.Covers now := by
  intro source listed
  exact covers source (mem_before_of_isUpToDate located'.distinct states upToDate listed)

theorem concludes_of_isUpToDate {stored : Session} {report : BuildReport}
    (ready : Ready layout pair toolchain.sourceExtension now files)
    (located : Located pair.source toolchain.sourceExtension before)
    (states : ∀ path state, (path, state) ∈ sources.toList ↔ StandsBetween before now path.text state)
    (upToDate : isUpToDate sources) (covers : language.Covers before)
    (reflects : stored.Reflects (language.surfaces before))
    (reads : files.read (layout.sessionFile pair directory) = .ok stored.toCacheData.encode)
    (succeeds : report.exitCode = 0) :
    Concludes language layout pair directory now files report files := by
  have same : language.surfaces before = language.surfaces now :=
    surfaces_eq_of_isUpToDate located ready.lists.located states upToDate
  have plain := (CacheLayout.below_sessionFile ready.disjoint.plainRoot pair directory).plain
  rw [ready.wellFormed.read_eq_ok_iff_holds plain] at reads
  refine ⟨fun _ => ⟨Accumulates.refl _, Accumulates.refl _, fun _ => ⟨?_, stored, ?_, reads.1⟩⟩,
    fun bad => absurd succeeds bad⟩
  · exact covers_of_isUpToDate ready.lists.located states upToDate covers
  · rwa [← same]

/-- How a build ends can be shown for its three ways: it starts over, where at most the cache file is
gone, or there is nothing to do, or it goes on from a session that reflects the sources as they were. -/
theorem ends_compileSources_of {world : World} {done : BuildReport → World → Prop}
    {failed : BuildError → World → Prop}
    (cacheFile : request.cacheFile = layout.sessionFile pair directory)
    (disjoint : Disjoint layout pair world.files)
    (states : ∀ path state, (path, state) ∈ request.sources.toList ↔
      StandsBetween before now path.text state)
    (recalls : request.classpathChanged = false →
      Recalls language layout pair directory before world.files)
    (startsOver : ∀ opened : OpenSession, Quiet layout pair directory world.files opened.world.files →
      Ends (full toolchain request) opened (fun report next => done report next.world)
        (fun error next => failed error next.world))
    (upToDate : request.classpathChanged = false → isUpToDate request.sources →
      ∀ stored : Session, stored.Reflects (language.surfaces before) →
        world.files.read (layout.sessionFile pair directory) = .ok stored.toCacheData.encode →
        done ⟨.unchanged, 0, ∅⟩ world)
    (goesOn : request.classpathChanged = false →
      (∃ octets, world.files.read (layout.sessionFile pair directory) = .ok octets) →
      ∀ opened : OpenSession, opened.world = world →
        opened.session.Reflects (language.surfaces before) →
        Ends (incremental toolchain request) opened (fun report next => done report next.world)
          (fun error next => failed error next.world)) :
    Ends (compileSources toolchain request) world done failed := by
  rw [compileSources, ends_bind]
  refine (Session.ends_start (Accumulates.refl world.files)
    (Session.quiet_removeFile cacheFile disjoint)).imp ?_ fun _ _ => False.elim
  intro session started starts
  have quiet : Quiet layout pair directory world.files started.files := by
    rcases starts with ⟨-, rfl⟩ | ⟨-, quiet⟩
    · exact Accumulates.refl _
    · exact quiet
  rw [ends_run, choose, ends_ite]
  split
  next => exact startsOver ⟨session, started⟩ quiet
  next unchanged =>
    rw [Bool.not_eq_true] at unchanged
    have recalls := recalls unchanged
    rw [ends_bind, ends_current, ends_ite]
    split
    next =>
      rw [ends_bind, ends_outside, ends_notify]
      exact startsOver ⟨session, { started with notices := _ }⟩ quiet
    next known =>
      -- A cold session would lack the graph, so this one was loaded.
      rcases starts with ⟨loads, rfl⟩ | ⟨rfl, -⟩
      · rw [cacheFile] at loads
        obtain ⟨stored, reflects, reads, rfl⟩ := recalls.exists_of_load loads
        rw [ends_ite]
        split
        next done => exact upToDate unchanged done stored reflects reads
        next => exact goesOn unchanged ⟨_, reads⟩ _ rfl reflects.ofStored
      · obtain ⟨source, member⟩ := List.exists_mem_of_ne_nil _ recalls.nonempty
        exact absurd (lacksGraph_empty member states) known

theorem ends_compileSources {world : World}
    (serves : toolchain.Serves language pair.output [pair.source, layout.root])
    (output : request.outputRoot = pair.output)
    (cacheFile : request.cacheFile = layout.sessionFile pair directory)
    (ready : Ready layout pair toolchain.sourceExtension now world.files)
    (located : Located pair.source toolchain.sourceExtension before)
    (states : ∀ path state, (path, state) ∈ request.sources.toList ↔
      StandsBetween before now path.text state)
    (recalls : request.classpathChanged = false →
      Recalls language layout pair directory before world.files) :
    Ends (compileSources toolchain request) world
      (fun report next => Concludes language layout pair directory now world.files report
        next.files)
      (fun _ next => Quiet layout pair directory world.files next.files) := by
  refine ends_compileSources_of cacheFile ready.disjoint states recalls ?_ ?_ ?_
  · intro opened quiet
    refine (ends_full serves output cacheFile (ready.keeps quiet.sources)
      (mem_present_iff states)).imp ?_ fun _ _ => Accumulates.trans quiet
    intro report next concludes
    exact ⟨fun good => quiet.stored (concludes.good good),
      fun bad => Accumulates.trans quiet (concludes.bad bad)⟩
  · intro unchanged upToDate stored reflects reads
    exact concludes_of_isUpToDate ready located states upToDate (recalls unchanged).covers reflects
      reads rfl
  · rintro unchanged - opened rfl loaded
    exact ends_incremental serves output cacheFile
      ⟨ready, located, (recalls unchanged).covers, loaded, (recalls unchanged).names, states⟩

end AbiBuild.Build
