import AbiBuild.Proofs.Build.Freshness
import AbiBuild.Proofs.CommandLine.Histories

/-!
# Outputs over a history

An invocation that succeeds leaves a unit of every source, made of what the source holds then.  A
failed one may leave any outputs behind, so its digests have to go; an error has to drop them too, or
to leave the outputs alone.
-/

namespace AbiBuild.Project

open Files FileSystem Changes CommandLine

variable {project : Project} {toolchain : Toolchain} {classpath : List Path} {extension : String}

/-! ## What is known of outputs -/

def HasOutputs (project : Project) (extension : String) (contents : List (String × Bytes))
    (files : FileSystem) : Prop :=
  ∀ source ∈ contents, HasUnit project.language project.pair.output extension source.2 files

def KnowsOutputs (project : Project) (extension : String) (contents : List (String × Bytes))
    (files : FileSystem) : Prop :=
  (∃ octets, files.read (project.sessionFile files) = .ok octets) →
    project.HasOutputs extension contents files

def GainsOutputs (project : Project) (extension : String) (contents : List (String × Bytes))
    (files : FileSystem) : Prop :=
  Sound (project.language.surfaces contents) → Flat (project.language.surfaces contents) →
    project.HasOutputs extension contents files

theorem HasOutputs.keeps {contents : List (String × Bytes)} {before after : FileSystem}
    (has : project.HasOutputs extension contents before) (plain : project.pair.output.Plain)
    (whole : '/' ∉ extension.toList) (wellFormed : before.WellFormed)
    (keeps : Keeps project.pair.output before after) :
    project.HasOutputs extension contents after :=
  fun source member =>
    (has source member).leaves plain whole wellFormed fun _ below => keeps.leaves below

theorem aboutOutputs_gainsOutputs (plain : project.pair.output.Plain)
    (whole : '/' ∉ extension.toList) : project.AboutOutputs (project.GainsOutputs extension) :=
  fun _ _ _ wellFormed keeps gains sound flat => (gains sound flat).keeps plain whole wellFormed keeps

theorem gains_outputs (serves : project.ServedBy toolchain)
    (others : toolchain.SparesOthers project.language project.pair.output)
    (same : toolchain.outputExtension = extension) :
    project.Gains toolchain (project.KnowsOutputs extension) (project.GainsOutputs extension) := by
  subst same
  intro request before now world asks
  by_cases sound : Sound (project.language.surfaces now)
  · by_cases flat : Flat (project.language.surfaces now)
    · have each : ∀ source : { source // source ∈ now },
          Ends (Build.compileSources toolchain request) world
            (fun report next => report.exitCode = 0 → HasUnit project.language
              project.pair.output toolchain.outputExtension source.1.2 next.files)
            (fun _ _ => True) := by
        rintro ⟨⟨text, content⟩, taken⟩
        have taken : ((Files.Path.mk text).text, content) ∈ now := taken
        exact Build.ends_compileSources_unit serves others asks.output asks.cacheFile asks.ready
          asks.located asks.states (fun unchanged => (asks.remembers unchanged).1.recalls) sound flat
          (fun unchanged => (asks.remembers unchanged).2) taken
      refine (Ends.forall each).imp ?_ fun _ _ _ => trivial
      exact fun report next has good _ _ source member => has ⟨source, member⟩ good
    · exact (ends_true _ _).imp (fun _ _ _ _ _ flat' => absurd flat' flat) fun _ _ _ => trivial
  · exact (ends_true _ _).imp (fun _ _ _ _ sound' => absurd sound' sound) fun _ _ _ => trivial

/-! ## Steps -/

/-- An error does no harm if the digests are gone.  It does none either if sources, state and outputs
stay; outputs need not, if there is no session left to go on from. -/
def Harmless (project : Project) (before after : FileSystem) : Prop :=
  project.Forgotten after ∨ project.RetainsState before after ∧
    (Keeps project.pair.output before after ∨
      ∀ octets, after.read (project.sessionFile after) ≠ .ok octets)

def Unnested (project : Project) (files : FileSystem) : Prop :=
  ∀ path content surface, project.IsSource files path content →
    project.language.surface? content = some surface → '$' ∉ surface.1.className.toList

/-- An invocation as a history of outputs may have it: its errors do no harm, and when it succeeds
the types of the sources fit and have no nested names. -/
structure Allowed (project : Project) (extension : String) (toolchain : Toolchain)
    (classpath : List Path) (world : World) : Prop where
  serves : project.ServedBy toolchain
  others : toolchain.SparesOthers project.language project.pair.output
  sourceExtension : toolchain.sourceExtension = project.sourceExtension
  outputExtension : toolchain.outputExtension = extension
  occurs : ∀ path content, project.IsSource world.files path content → project.Occurs content
  fits : ∀ next, compilePair project.layout toolchain project.pair classpath world = .ok 0 next →
    project.Fits next.files
  unnested : ∀ next, compilePair project.layout toolchain project.pair classpath world = .ok 0 next →
    project.Unnested next.files
  small : ∀ next, compilePair project.layout toolchain project.pair classpath world = .ok 0 next →
    project.Small next.files
  honest : project.HonestHost toolchain classpath world
  harmless : ∀ error next,
    compilePair project.layout toolchain project.pair classpath world = .error error next →
      project.Harmless world.files next.files

section Allowed

variable {world next : World} (serves : project.ServedBy toolchain)
  (others : toolchain.SparesOthers project.language project.pair.output)
  (sourceExtension : toolchain.sourceExtension = project.sourceExtension)
  (outputExtension : toolchain.outputExtension = extension)
  (occurs : ∀ path content, project.IsSource world.files path content → project.Occurs content)
include serves others sourceExtension outputExtension occurs

theorem allowed_of_returns
    (returns : compilePair project.layout toolchain project.pair classpath world = .ok 0 next)
    (fits : project.Fits next.files) (unnested : project.Unnested next.files)
    (small : project.Small next.files) : project.Allowed extension toolchain classpath world where
  serves := serves
  others := others
  sourceExtension := sourceExtension
  outputExtension := outputExtension
  occurs := occurs
  fits last returns' := by
    rw [returns] at returns'
    injection returns' with _ same
    rwa [← same]
  unnested last returns' := by
    rw [returns] at returns'
    injection returns' with _ same
    rwa [← same]
  small last returns' := by
    rw [returns] at returns'
    injection returns' with _ same
    rwa [← same]
  honest := honestHost_of_returns returns
  harmless error last fails := by
    rw [returns] at fails
    cases fails

theorem allowed_of_fails {error : BuildError}
    (tries : tryPair project.layout toolchain project.pair classpath world = .error error next)
    (harmless : project.Harmless world.files next.files) :
    project.Allowed extension toolchain classpath world := by
  have fails := compilePair_eq_error tries
  refine ⟨serves, others, sourceExtension, outputExtension, occurs, ?_, ?_, ?_, ?_, ?_⟩
  · intro last returns
    rw [fails] at returns
    cases returns
  · intro last returns
    rw [fails] at returns
    cases returns
  · intro last returns
    rw [fails] at returns
    cases returns
  · intro detector report middle tries'
    rw [tries] at tries'
    cases tries'
  · intro error' last fails'
    rw [fails] at fails'
    injection fails' with _ same
    rwa [← same]

end Allowed

/-- Edits leave state and outputs alone.  An invocation may return any exit code, or fail without
harm. -/
inductive Proceeds (project : Project) (extension : String) : World → World → Prop
  | edited {before after : World} (state : Keeps project.layout.root before.files after.files)
      (outputs : Keeps project.pair.output before.files after.files) :
      Proceeds project extension before after
  | invoked {toolchain : Toolchain} {classpath : List Path} {world : World}
      (allowed : project.Allowed extension toolchain classpath world) :
      Proceeds project extension world
        (stateAfter (compilePair project.layout toolchain project.pair classpath) world)

section Steps

variable {world next : World}

theorem Proceeds.of_returns {exitCode : Int}
    (allowed : project.Allowed extension toolchain classpath world)
    (returns : compilePair project.layout toolchain project.pair classpath world =
      .ok exitCode next) : project.Proceeds extension world next := by
  have step := Proceeds.invoked allowed
  rwa [stateAfter_of_eq_ok returns] at step

theorem Proceeds.of_fails {error : BuildError}
    (allowed : project.Allowed extension toolchain classpath world)
    (fails : compilePair project.layout toolchain project.pair classpath world =
      .error error next) : project.Proceeds extension world next := by
  have step := Proceeds.invoked allowed
  rwa [stateAfter_of_eq_error fails] at step

theorem Allowed.whole (allowed : project.Allowed extension toolchain classpath world) :
    '/' ∉ extension.toList := by
  rw [← allowed.outputExtension]
  exact allowed.serves.extension

theorem Allowed.good (allowed : project.Allowed extension toolchain classpath world)
    (kept : project.Kept (project.KnowsOutputs extension) world.files)
    (returns : compilePair project.layout toolchain project.pair classpath world = .ok 0 next) :
    ∃ contents, project.Good (project.GainsOutputs extension) contents world.files next.files ∧
      project.HasOutputs extension contents next.files := by
  have plain := kept.disjoint.plainOutput
  obtain ⟨contents, good⟩ := exists_good allowed.serves
    (gains_outputs allowed.serves allowed.others allowed.outputExtension)
    (aboutOutputs_gainsOutputs plain allowed.whole) allowed.sourceExtension kept allowed.occurs
    returns (allowed.fits next returns) (allowed.small next returns)
  refine ⟨contents, good, good.gained ((allowed.fits next returns).sound good.lists) ?_⟩
  intro path surface found
  obtain ⟨content, listed, found⟩ :=
    (Language.surfaces_eq_some good.lists.distinct path surface).mp found
  exact allowed.unnested next returns path content surface
    ((good.lists.member path content).mp listed) found

section Kept

variable {before after : FileSystem}
  (kept : project.Kept (project.KnowsOutputs extension) before) (whole : '/' ∉ extension.toList)
include kept

theorem Kept.forgotten (sources : Keeps project.pair.source before after)
    (forgotten : project.Forgotten after) : project.Kept (project.KnowsOutputs extension) after :=
  ⟨sources.wellFormed kept.wellFormed, kept.legible.congr sources.host,
    kept.disjoint.congr sources.host, .inl forgotten⟩

include whole

theorem Kept.retainsOutputs (retains : project.RetainsState before after)
    (outputs : Keeps project.pair.output before after ∨
      ∀ octets, after.read (project.sessionFile after) ≠ .ok octets) :
    project.Kept (project.KnowsOutputs extension) after := by
  refine kept.retainsState retains (.inr fun contents knows => ?_)
  rintro ⟨octets, reads⟩
  rcases outputs with keeps | unreadable
  · have known := retains.read_session kept.wellFormed kept.disjoint.plainRoot reads
    exact (knows ⟨octets, known⟩).keeps kept.disjoint.plainOutput whole kept.wellFormed keeps
  · exact absurd reads (unreadable octets)

theorem Kept.harmless (sources : Keeps project.pair.source before after)
    (harmless : project.Harmless before after) :
    project.Kept (project.KnowsOutputs extension) after := by
  rcases harmless with forgotten | ⟨retains, outputs⟩
  · exact kept.forgotten sources forgotten
  · exact kept.retainsOutputs whole retains outputs

end Kept

theorem Kept.proceeds (kept : project.Kept (project.KnowsOutputs extension) world.files)
    (whole : '/' ∉ extension.toList) (step : project.Proceeds extension world next) :
    project.Kept (project.KnowsOutputs extension) next.files := by
  cases step with
  | edited state outputs =>
      exact kept.retainsOutputs whole (retainsState_of_keeps kept.disjoint.plainRoot state)
        (.inl outputs)
  | @invoked toolchain classpath _ allowed =>
      have sources : Ends (compilePair project.layout toolchain project.pair classpath) world
          (fun _ next => Keeps project.pair.source world.files next.files)
          (fun _ next => Keeps project.pair.source world.files next.files) :=
        ends_compilePair_sources allowed.serves allowed.sourceExtension kept allowed.occurs
      have forgets : Ends (compilePair project.layout toolchain project.pair classpath) world
          (fun exitCode next =>
            exitCode ≠ 0 → next.files = world.files ∨ project.Forgotten next.files)
          (fun _ _ => True) :=
        ends_compilePair_forgets allowed.serves allowed.sourceExtension kept allowed.occurs
          allowed.honest
      rw [stateAfter]
      cases result : compilePair project.layout toolchain project.pair classpath world with
      | error error next =>
          exact kept.harmless whole (sources.of_error result) (allowed.harmless error next result)
      | ok exitCode next =>
          by_cases zero : exitCode = 0
          · subst zero
            obtain ⟨contents, good, has⟩ := allowed.good kept result
            exact ⟨good.wellFormed, good.legible, good.disjoint,
              .inr ⟨contents, good.remembers, fun _ => has⟩⟩
          · rcases forgets.of_ok result zero with same | forgotten
            · change project.Kept _ next.files
              rwa [same]
            · exact kept.forgotten (sources.of_ok result) forgotten

theorem Fresh.kept_of_proceeds {start : World} (fresh : project.Fresh start.files)
    (whole : '/' ∉ extension.toList)
    (history : Relation.ReflTransGen (project.Proceeds extension) start world) :
    project.Kept (project.KnowsOutputs extension) world.files := by
  induction history with
  | refl => exact fresh.kept _
  | tail _ step ih => exact ih.proceeds whole step

end Steps

/-- After any history whose errors do no harm, an invocation that succeeds leaves a unit of every
source, made of what the source holds. -/
theorem outputs_are_fresh {start world next : World} (fresh : project.Fresh start.files)
    (history : Relation.ReflTransGen (project.Proceeds extension) start world)
    (allowed : project.Allowed extension toolchain classpath world)
    (returns : compilePair project.layout toolchain project.pair classpath world = .ok 0 next)
    {path : Path} {content : Bytes} (source : project.IsSource next.files path content) :
    ∃ surface unit, project.language.surface? content = some surface ∧
      next.files.read (Outputs.unitPath project.pair.output surface.1.className extension) =
        .ok unit ∧ project.language.IsUnit content unit := by
  have kept := fresh.kept_of_proceeds allowed.whole history
  obtain ⟨contents, good, has⟩ := allowed.good kept returns
  have listed := (good.lists.member path content).mpr source
  obtain ⟨surface, found⟩ :=
    Option.isSome_iff_exists.mp (good.remembers.recalls.covers _ listed)
  obtain ⟨-, unit, reads, isUnit⟩ := has _ listed surface found
  exact ⟨surface, unit, found, reads, isUnit⟩

section Failing

def failing : Toolchain :=
  { PlainText.copying with compile := fun _ => throw (.backend "no compiler") }

/-- Without its compiler a build leaves an empty output root behind. -/
def failed : World := worldOf ((["out"], .directory) :: sourceEntries [("A", firstContent)])

theorem failing_builds :
    returns (tryPair growing.layout failing growing.pair []) unbuilt = false ∧
      stateAfter (tryPair growing.layout failing growing.pair []) unbuilt = failed ∧
      outcome? build failed = some (0, built) := by
  decide +kernel

theorem failed_tree : IsTreeOf failed.files [("A", firstContent)] ∧
    failed.files.entries[["cache"]]? = none := by
  decide +kernel

theorem growing_unnested : ∀ sources ∈ growingSources, ∀ source ∈ contentsOf sources,
    ∀ name ∈ PlainText.language.typeName? source.2, '$' ∉ name.toList := by
  decide +kernel

theorem serves_failing : growing.ServedBy failing :=
  { serves_growing with
    compiles := fun _ world _ _ _ _ => Accumulates.refl world.files }

theorem sparesOthers_growing :
    PlainText.copying.SparesOthers growing.language growing.pair.output :=
  PlainText.sparesOthers_copying (disjoint_growing unbuilt.files).plainOutput

theorem sparesOthers_failing : failing.SparesOthers growing.language growing.pair.output where
  outer := sparesOthers_growing.outer
  compiles _ _ _ _ _ _ _ _ _ _ _ := trivial

theorem allowed_growing {world next : World} {sources : List (String × Bytes)}
    (known : sources ∈ growingSources) (before : IsTreeOf world.files sources)
    (after : IsTreeOf next.files sources) (builds : build world = .ok 0 next) :
    growing.Allowed "class" PlainText.copying [] world := by
  obtain ⟨occurring, apart, names⟩ := growing_fits sources known
  have lists := lists_growing after
  refine allowed_of_returns serves_growing sparesOthers_growing rfl rfl ?_ builds
    (fits_of_lists lists apart names) ?_ (small_of_entries after.1 after.2.2)
  · intro path content source
    exact occurring _ (((lists_growing before).member path content).mpr source)
  · intro path content surface source found
    refine growing_unnested sources known _ ((lists.member path content).mpr source) _ ?_
    change Option.map _ (growing.language.surface? content) = _
    rw [found]
    rfl

theorem fails_growing : growing.Proceeds "class" unbuilt failed := by
  obtain ⟨fails, leaves, -⟩ := failing_builds
  obtain ⟨error, tries⟩ := exists_of_fails fails
  rw [leaves] at tries
  have fresh : growing.Fresh failed.files :=
    fresh_of_missing failed_tree.1.1 (legibleBelow_worldOf _ _) (disjoint_growing _) failed_tree.2
  have lists := lists_growing growing_trees.1
  have allowed : growing.Allowed "class" failing [] unbuilt :=
    allowed_of_fails serves_failing sparesOthers_failing rfl rfl
      (fun path content source =>
        (growing_fits _ (.head _)).1 _ ((lists.member path content).mpr source))
      tries (.inl fresh.forgotten)
  exact .of_fails allowed (compilePair_eq_error tries)

theorem outputs_are_fresh_failing :
    Relation.ReflTransGen (growing.Proceeds "class") unbuilt grown ∧ build grown = .ok 0 rebuilt ∧
      rebuilt.files.read (Outputs.unitPath growing.pair.output "B" "class") = .ok secondContent := by
  obtain ⟨treeUnbuilt, treeBuilt, treeGrown, treeRebuilt, missing⟩ := growing_trees
  have first : build failed = .ok 0 built := eq_ok_of_outcome? failing_builds.2.2
  have second : build grown = .ok 0 rebuilt := eq_ok_of_outcome? growing_builds.2
  have fresh : growing.Fresh unbuilt.files :=
    fresh_of_missing treeUnbuilt.1 (legibleBelow_worldOf _ _) (disjoint_growing _) missing
  have builds : growing.Proceeds "class" failed built :=
    .of_returns (allowed_growing (.head _) failed_tree.1 treeBuilt first) first
  have grows : growing.Proceeds "class" built grown :=
    .edited (keeps_setEntry treeGrown.1 (by decide +kernel))
      (keeps_setEntry treeGrown.1 (by decide +kernel))
  have history : Relation.ReflTransGen (growing.Proceeds "class") unbuilt grown :=
    ((Relation.ReflTransGen.single fails_growing).tail builds).tail grows
  have source : growing.IsSource rebuilt.files ⟨"src/B.java"⟩ secondContent :=
    ((lists_growing treeRebuilt).member _ _).mp (by decide +kernel)
  obtain ⟨surface, unit, found, reads, isUnit⟩ := outputs_are_fresh fresh history
    (allowed_growing (.tail _ (.head _)) treeGrown treeRebuilt second) second source
  obtain ⟨other, foundOther, named⟩ := surface?_secondContent
  obtain rfl := Option.some.inj (foundOther.symm.trans found)
  obtain rfl : unit = secondContent := isUnit
  rw [named] at reads
  exact ⟨history, second, reads⟩

end Failing

end AbiBuild.Project
