import AbiBuild.Proofs.Build.Copying
import AbiBuild.Proofs.CommandLine.Invocations

/-!
# Histories of edits and invocations

Sources are edited and invocations made in any order, and any of these may fail.  An invocation that
succeeds leaves the session that building everything anew would leave.
-/

namespace AbiBuild

open Files FileSystem Changes CommandLine

/-! ## Sessions that reflect the same sources -/

namespace Session.Reflects

variable {first second : Session} {surfaces : Path → Option PartitionedAbi}

theorem dependsOn_iff (hfirst : first.Reflects surfaces) (hsecond : second.Reflects surfaces)
    (name type : String) (isPrivate : Bool) :
    first.graph.DependsOn name type isPrivate ↔ second.graph.DependsOn name type isPrivate := by
  rw [hfirst.depends, hsecond.depends]

theorem classToSource_eq (hfirst : first.Reflects surfaces) (hsecond : second.Reflects surfaces) :
    first.classToSource = second.classToSource := by
  apply Std.ExtTreeMap.ext_getElem?
  intro name
  apply Option.ext
  intro path
  rw [hfirst.classes, hsecond.classes]

theorem dependenciesOf_eq (hfirst : first.Reflects surfaces) (hsecond : second.Reflects surfaces)
    (name : String) : first.graph.dependenciesOf name = second.graph.dependenciesOf name := by
  apply Std.ExtTreeMap.ext_getElem?
  intro type
  apply Option.ext
  intro isPrivate
  rw [Dependency.Graph.getElem?_dependenciesOf hfirst.healthy.settled,
    Dependency.Graph.getElem?_dependenciesOf hsecond.healthy.settled, hfirst.dependsOn_iff hsecond]

theorem dependentsOf_eq (hfirst : first.Reflects surfaces) (hsecond : second.Reflects surfaces)
    (name : String) : first.graph.dependentsOf name = second.graph.dependentsOf name := by
  apply Std.ExtTreeMap.ext_getElem?
  intro dependent
  apply Option.ext
  intro isPrivate
  rw [Dependency.Graph.getElem?_dependentsOf hfirst.healthy.mirrored hfirst.healthy.settled,
    Dependency.Graph.getElem?_dependentsOf hsecond.healthy.mirrored hsecond.healthy.settled,
    hfirst.dependsOn_iff hsecond]

end Session.Reflects

namespace Project

variable {project : Project} {toolchain : Toolchain} {classpath : List Path}

/-! ## Steps -/

/-- An invocation as a history may have it: it writes its digests when it succeeds, and then the
types of the sources fit. -/
structure Invocable (project : Project) (toolchain : Toolchain) (classpath : List Path)
    (world : World) : Prop where
  serves : project.ServedBy toolchain
  extension : toolchain.sourceExtension = project.sourceExtension
  occurs : ∀ path content, project.IsSource world.files path content → project.Occurs content
  saves : project.SavesDigests toolchain classpath world
  fits : ∀ next, compilePair project.layout toolchain project.pair classpath world = .ok 0 next →
    project.Fits next.files
  small : ∀ next, compilePair project.layout toolchain project.pair classpath world = .ok 0 next →
    project.Small next.files

theorem invocable_of_returns {world next : World}
    (serves : project.ServedBy toolchain)
    (extension : toolchain.sourceExtension = project.sourceExtension)
    (returns : compilePair project.layout toolchain project.pair classpath world = .ok 0 next)
    (occurs : ∀ path content, project.IsSource world.files path content → project.Occurs content)
    (fits : project.Fits next.files) (small : project.Small next.files) :
    project.Invocable toolchain classpath world where
  serves := serves
  extension := extension
  occurs := occurs
  saves := savesDigests_of_returns returns
  fits last returns' := by
    rw [returns] at returns'
    injection returns' with _ same
    rwa [← same]
  small last returns' := by
    rw [returns] at returns'
    injection returns' with _ same
    rwa [← same]

/-- Edits leave the state alone.  An invocation may end in any way. -/
inductive Happens (project : Project) : World → World → Prop
  | edited {before after : World} (state : Keeps project.layout.root before.files after.files) :
      Happens project before after
  | invoked {toolchain : Toolchain} {classpath : List Path} {world : World}
      (allowed : project.Invocable toolchain classpath world) : Happens project world
        (stateAfter (compilePair project.layout toolchain project.pair classpath) world)

theorem Happens.of_returns {world next : World} {exitCode : Int}
    (allowed : project.Invocable toolchain classpath world)
    (returns : compilePair project.layout toolchain project.pair classpath world =
      .ok exitCode next) : project.Happens world next := by
  have step := Happens.invoked allowed
  rwa [stateAfter_of_eq_ok returns] at step

/-- Nothing was built yet. -/
structure Fresh (project : Project) (files : FileSystem) : Prop where
  wellFormed : files.WellFormed
  legible : files.LegibleBelow project.layout.root
  disjoint : Disjoint project.layout project.pair files
  forgotten : project.Forgotten files

theorem fresh_of_missing {files : FileSystem} (wellFormed : files.WellFormed)
    (legible : files.LegibleBelow project.layout.root)
    (disjoint : Disjoint project.layout project.pair files)
    (missing : files.entries[files.placeFor project.layout.root]? = none) :
    project.Fresh files where
  wellFormed := wellFormed
  legible := legible
  disjoint := disjoint
  forgotten := by
    have plain := disjoint.plainRoot
    rw [← entryAt?_of_ne_nil files (placeFor_ne_nil plain)] at missing
    exact forgotten_of_bare wellFormed plain ((bare_of_missing wellFormed (List.prefix_refl _)
      missing).mono ((CacheLayout.below_digestRoot plain).trans (below_stateDirectory plain files)))

theorem Fresh.kept {files : FileSystem} (fresh : project.Fresh files)
    (known : List (String × Bytes) → FileSystem → Prop) : project.Kept known files :=
  ⟨fresh.wellFormed, fresh.legible, fresh.disjoint, .inl fresh.forgotten⟩

abbrev nothing : List (String × Bytes) → FileSystem → Prop := fun _ _ => True

theorem Invocable.good {world next : World} (allowed : project.Invocable toolchain classpath world)
    (kept : project.Kept nothing world.files)
    (returns : compilePair project.layout toolchain project.pair classpath world = .ok 0 next) :
    ∃ contents, project.Good nothing contents world.files next.files :=
  exists_good allowed.serves gains_true (fun _ _ _ _ _ known => known) allowed.extension kept
    allowed.occurs returns (allowed.fits next returns) (allowed.small next returns)

theorem Good.kept {known : List (String × Bytes) → FileSystem → Prop}
    {contents : List (String × Bytes)} {before after : FileSystem}
    (good : project.Good known contents before after) : project.Kept known after :=
  ⟨good.wellFormed, good.legible, good.disjoint, .inr ⟨contents, good.remembers, good.gained⟩⟩

theorem Kept.happens {before after : World} (kept : project.Kept nothing before.files)
    (step : project.Happens before after) : project.Kept nothing after.files := by
  cases step with
  | edited state =>
      exact kept.retainsState (retainsState_of_keeps kept.disjoint.plainRoot state)
        (.inr fun _ known => known)
  | @invoked toolchain classpath _ allowed =>
      have ends := ends_compilePair allowed.serves allowed.extension kept allowed.occurs
        allowed.saves
      rw [stateAfter]
      cases result : compilePair project.layout toolchain project.pair classpath before with
      | error error next =>
          exact kept.retainsState (ends.of_error result).toRetainsState (.inr fun _ known => known)
      | ok exitCode next =>
          by_cases zero : exitCode = 0
          · subst zero
            obtain ⟨contents, good⟩ := allowed.good kept result
            exact good.kept
          · exact kept.retainsState (ends.of_ok result zero).toRetainsState
              (.inr fun _ known => known)

theorem Fresh.kept_of_history {start world : World} (fresh : project.Fresh start.files)
    (history : Relation.ReflTransGen project.Happens start world) :
    project.Kept nothing world.files := by
  induction history with
  | refl => exact fresh.kept nothing
  | tail _ step ih => exact ih.happens step

/-! ## What the sources of a tree are -/

theorem surfaces_eq_some_iff {files : FileSystem} {contents : List (String × Bytes)}
    (lists : Lists files project.pair.source project.sourceExtension contents) (path : Path)
    (surface : PartitionedAbi) : project.language.surfaces contents path = some surface ↔
      ∃ content, project.IsSource files path content ∧
        project.language.surface? content = some surface := by
  rw [Language.surfaces_eq_some lists.distinct]
  simp only [lists.member]

theorem surfaces_congr {files other : FileSystem} {contents others : List (String × Bytes)}
    (lists : Lists files project.pair.source project.sourceExtension contents)
    (listsOther : Lists other project.pair.source project.sourceExtension others)
    (same : ∀ path content, project.IsSource files path content ↔
      project.IsSource other path content) :
    project.language.surfaces contents = project.language.surfaces others := by
  funext path
  apply Option.ext
  intro surface
  rw [surfaces_eq_some_iff lists, surfaces_eq_some_iff listsOther]
  simp only [same]

/-- After any history, an invocation that succeeds stores exactly the types of the sources that are
there.  What they depend on and what depends on them is the same as after building these sources from
nothing. -/
theorem incremental_agrees_with_full {start world next : World} (fresh : project.Fresh start.files)
    (history : Relation.ReflTransGen project.Happens start world)
    (allowed : project.Invocable toolchain classpath world)
    (returns : compilePair project.layout toolchain project.pair classpath world = .ok 0 next) :
    ∃ session, Session.load next.files (project.sessionFile next.files) = .ok session ∧
      (∀ name path, session.classToSource[name]? = some path ↔ ∃ content surface,
        project.IsSource next.files path content ∧
          project.language.surface? content = some surface ∧ surface.1.className = name) ∧
      (∀ path content, project.IsSource next.files path content →
        (project.language.surface? content).isSome) ∧
      ∀ {other : Toolchain} {otherClasspath : List Path} {scratch built : World},
        project.Fresh scratch.files → project.Invocable other otherClasspath scratch →
        (∀ path content, project.IsSource scratch.files path content ↔
          project.IsSource next.files path content) →
        compilePair project.layout other project.pair otherClasspath scratch = .ok 0 built →
        ∃ full, Session.load built.files (project.sessionFile built.files) = .ok full ∧
          full.classToSource = session.classToSource ∧
          ∀ name, full.graph.dependenciesOf name = session.graph.dependenciesOf name ∧
            full.graph.dependentsOf name = session.graph.dependentsOf name := by
  obtain ⟨contents, good⟩ := allowed.good (fresh.kept_of_history history) returns
  obtain ⟨session, reflects, loads⟩ := good.session
  have reflected := reflects.ofStored
  refine ⟨_, loads, ?_, ?_, ?_⟩
  · intro name path
    rw [reflected.classes]
    simp only [surfaces_eq_some_iff good.lists]
    constructor
    · rintro ⟨surface, ⟨content, source, found⟩, named⟩
      exact ⟨content, surface, source, found, named⟩
    · rintro ⟨content, surface, source, found, named⟩
      exact ⟨surface, ⟨content, source, found⟩, named⟩
  · intro path content source
    exact good.remembers.recalls.covers _ ((good.lists.member path content).mpr source)
  · intro other otherClasspath scratch built freshOther allowedOther same returnsOther
    obtain ⟨others, goodOther⟩ := allowedOther.good (freshOther.kept nothing) returnsOther
    obtain ⟨full, reflectsFull, loadsFull⟩ := goodOther.session
    have surfaces : project.language.surfaces others = project.language.surfaces contents := by
      refine surfaces_congr goodOther.lists good.lists fun path content => ?_
      rw [IsSource, IsSource.congr goodOther.sources]
      exact same path content
    rw [surfaces] at reflectsFull
    have reflectedFull := reflectsFull.ofStored
    exact ⟨_, loadsFull, reflectedFull.classToSource_eq reflected, fun name =>
      ⟨reflectedFull.dependenciesOf_eq reflected name, reflectedFull.dependentsOf_eq reflected name⟩⟩

section Growing

def firstContent : Bytes := Text.Utf8.encode "A"

def secondContent : Bytes := Text.Utf8.encode "B\npublic A"

def growing : Project where
  language := PlainText.language
  layout := ⟨⟨"cache"⟩⟩
  pair := ⟨⟨"src"⟩, ⟨"out"⟩⟩
  sourceExtension := "java"
  Occurs content := content ∈ [firstContent, secondContent]
  apart first second hfirst hsecond :=
    (by decide +kernel : ∀ first ∈ [firstContent, secondContent],
      ∀ second ∈ [firstContent, secondContent],
        Digest.Xxh3.digest first = Digest.Xxh3.digest second → first = second)
      first hfirst second hsecond

def sourceEntries (sources : List (String × Bytes)) : List (Place × Entry) :=
  (["src"], .directory) ::
    sources.map fun (name, content) => (["src", name ++ ".java"], .file content)

def contentsOf (sources : List (String × Bytes)) : List (String × Bytes) :=
  sources.map fun (name, content) => ("src/" ++ name ++ ".java", content)

def learnedFrom (sources : List (String × Bytes)) : Session :=
  (contentsOf sources).foldl (fun session (path, content) =>
    session.learn (PlainText.surfaceOfText ((Text.Utf8.decode? content).getD "")) ⟨path⟩) .empty

def builtEntries (sources : List (String × Bytes)) : List (Place × Entry) :=
  let key := growing.pair.key ⟨"/"⟩
  [(["cache"], .directory),
    (["cache", "filesystem"], .directory),
    (["cache", "filesystem", key], .directory),
    (["cache", "filesystem", key, classpathFile], .file (encodeDigest (Digest.Xxh3.digest []))),
    (["cache", "filesystem", key, sourcesFile],
      .file (encodeDigests (digestsOf (contentsOf sources)))),
    (["cache", "incremental"], .directory),
    (["cache", "incremental", key ++ ".bin"],
      .file (learnedFrom sources).toCacheData.encode),
    (["out"], .directory)] ++
    sources.map fun (name, content) => (["out", name ++ ".class"], .file content)

def worldOf (entries : List (Place × Entry)) : World where
  files := { entries := Std.ExtTreeMap.ofList entries compare, host := { workingDirectory := [] } }

theorem legibleBelow_worldOf (entries : List (Place × Entry)) (root : Path) :
    (worldOf entries).files.LegibleBelow root := by
  have legible : (worldOf entries).files.Legible := rfl
  exact legible.below root

def unbuilt : World := worldOf (sourceEntries [("A", firstContent)])

def built : World :=
  worldOf (builtEntries [("A", firstContent)] ++ sourceEntries [("A", firstContent)])

/-- The second source is added. -/
def grown : World :=
  { built with files := built.files.setEntry ["src", "B.java"] (.file secondContent) }

def rebuilt : World :=
  worldOf (builtEntries [("A", firstContent), ("B", secondContent)] ++
    sourceEntries [("A", firstContent), ("B", secondContent)])

abbrev IsTreeOf (files : FileSystem) (sources : List (String × Bytes)) : Prop :=
  files.WellFormed ∧
    sourceContents files growing.pair.source growing.sourceExtension = .ok (contentsOf sources) ∧
    ∀ entry ∈ files.entries.toList, entry.2.octets.length < 2 ^ 32

theorem growing_trees :
    IsTreeOf unbuilt.files [("A", firstContent)] ∧ IsTreeOf built.files [("A", firstContent)] ∧
      IsTreeOf grown.files [("A", firstContent), ("B", secondContent)] ∧
      IsTreeOf rebuilt.files [("A", firstContent), ("B", secondContent)] ∧
      unbuilt.files.entries[["cache"]]? = none := by
  decide +kernel

def growingSources : List (List (String × Bytes)) :=
  [[("A", firstContent)], [("A", firstContent), ("B", secondContent)]]

theorem growing_fits : ∀ sources ∈ growingSources,
    (∀ source ∈ contentsOf sources, source.2 ∈ [firstContent, secondContent]) ∧
      (∀ first ∈ contentsOf sources, ∀ second ∈ contentsOf sources,
        ∀ name ∈ PlainText.language.typeName? first.2,
          PlainText.language.typeName? second.2 = some name → first.1 = second.1) ∧
      ∀ source ∈ contentsOf sources,
        ∀ name ∈ PlainText.language.typeName? source.2, IsTypeName name := by
  decide +kernel

abbrev build : BuildAction Int :=
  compilePair growing.layout PlainText.copying growing.pair []

theorem growing_builds :
    outcome? build unbuilt = some (0, built) ∧ outcome? build grown = some (0, rebuilt) := by
  decide +kernel

theorem apart_growing (files : FileSystem) : Apart files growing.pair.output growing.pair.source ∧
    Apart files growing.pair.output growing.layout.root ∧
    Apart files growing.layout.root growing.pair.source := by
  refine ⟨?_, ?_, ?_⟩ <;> exact apart_of_steps (by decide) (by decide) (by decide) files

theorem disjoint_growing (files : FileSystem) : Disjoint growing.layout growing.pair files where
  plainSource := by decide
  plainOutput := by decide
  plainRoot := by decide
  output_source := (apart_growing files).1
  output_state := (apart_growing files).2.1
  state_source := (apart_growing files).2.2

theorem serves_growing : growing.ServedBy PlainText.copying := by
  refine PlainText.serves_copying (disjoint_growing unbuilt.files).plainOutput ?_
  intro root member files
  rcases List.mem_pair.mp member with rfl | rfl
  · exact (apart_growing files).1
  · exact (apart_growing files).2.1

theorem lists_growing {files : FileSystem} {sources : List (String × Bytes)}
    (tree : IsTreeOf files sources) :
    Lists files growing.pair.source growing.sourceExtension (contentsOf sources) :=
  .of_sourceContents tree.1 (disjoint_growing files).plainSource tree.2.1

theorem invocable_growing {world next : World} {sources : List (String × Bytes)}
    (known : sources ∈ growingSources) (before : IsTreeOf world.files sources)
    (after : IsTreeOf next.files sources) (builds : build world = .ok 0 next) :
    growing.Invocable PlainText.copying [] world := by
  obtain ⟨occurring, apart, names⟩ := growing_fits sources known
  refine invocable_of_returns serves_growing rfl builds ?_
    (fits_of_lists (lists_growing after) apart names) (small_of_entries after.1 after.2.2)
  intro path content source
  exact occurring _ (((lists_growing before).member path content).mpr source)

theorem surface?_secondContent :
    ∃ surface, growing.language.surface? secondContent = some surface ∧
      surface.1.className = "B" := by
  have declares : growing.language.typeName? secondContent = some "B" := by decide +kernel
  exact Option.map_eq_some_iff.mp declares

theorem incremental_agrees_with_full_growing :
    Relation.ReflTransGen growing.Happens unbuilt grown ∧ build grown = .ok 0 rebuilt ∧
      ∃ session, Session.load rebuilt.files (growing.sessionFile rebuilt.files) = .ok session ∧
        session.classToSource["B"]? = some ⟨"src/B.java"⟩ := by
  obtain ⟨treeUnbuilt, treeBuilt, treeGrown, treeRebuilt, missing⟩ := growing_trees
  have first : build unbuilt = .ok 0 built := eq_ok_of_outcome? growing_builds.1
  have second : build grown = .ok 0 rebuilt := eq_ok_of_outcome? growing_builds.2
  have fresh : growing.Fresh unbuilt.files :=
    fresh_of_missing treeUnbuilt.1 (legibleBelow_worldOf _ _) (disjoint_growing _) missing
  have builds : growing.Happens unbuilt built :=
    .of_returns (invocable_growing (.head _) treeUnbuilt treeBuilt first) first
  have grows : growing.Happens built grown :=
    .edited (keeps_setEntry treeGrown.1 (by decide +kernel))
  have history : Relation.ReflTransGen growing.Happens unbuilt grown :=
    (Relation.ReflTransGen.single builds).tail grows
  obtain ⟨session, loads, classes, -⟩ := incremental_agrees_with_full fresh history
    (invocable_growing (.tail _ (.head _)) treeGrown treeRebuilt second) second
  have source : growing.IsSource rebuilt.files ⟨"src/B.java"⟩ secondContent :=
    ((lists_growing treeRebuilt).member _ _).mp (by decide +kernel)
  obtain ⟨surface, found, named⟩ := surface?_secondContent
  exact ⟨history, second, session, loads,
    (classes _ _).mpr ⟨secondContent, surface, source, found, named⟩⟩

end Growing

end Project

end AbiBuild
