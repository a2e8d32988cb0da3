import AbiBuild.Build.PlainText
import AbiBuild.Proofs.Dependency.Impact
import AbiBuild.Proofs.Session.Files
import AbiBuild.Proofs.Session.Reached
import AbiBuild.Proofs.Session.Reopen

/-!
# Every dependent has a source

A class gets dependencies only when it gets a source, and loses its source only together with its
dependencies.  So far as this goes it does not matter what a toolchain answers or where an operation
stops.
-/

namespace AbiBuild

open Files Dependency SessionAction

/-! ## What every step of a session keeps -/

def Preserves (holds : Session → Prop) (before after : OpenSession) : Prop :=
  holds before.session → holds after.session

instance (holds : Session → Prop) : Accumulates (Preserves holds) where
  refl _ := id
  trans first second := second ∘ first

section Preserves

variable {holds : Session → Prop} {α : Type}

theorem preserves_outside (action : BuildAction α) :
    Moves (Preserves holds) (outside action) := by
  intro opened
  rw [ends_outside]
  exact (ends_true action opened.world).imp (fun _ _ _ => id) fun _ _ _ => id

theorem preserves_revise {change : Session → Session}
    (keeps : ∀ session, holds session → holds (change session)) :
    Moves (Preserves holds) (revise change) :=
  fun opened => keeps opened.session

theorem preserves_current : Moves (Preserves holds) current := fun _ => id

theorem preserves_look (look : Session → FileSystem → Except BuildError α) :
    Moves (Preserves holds) (SessionAction.consult look) := by
  intro opened
  rw [ends_look]
  split <;> exact id

end Preserves

namespace Session

structure Owned (session : Session) : Prop where
  mirrored : session.graph.Mirrored
  sources : ∀ name, session.graph.isReal name → name ∈ session.classToSource

namespace Owned

variable {session : Session}

theorem empty : Session.empty.Owned where
  mirrored := Graph.Mirrored.empty
  sources name real := by
    obtain ⟨type, isPrivate, depends⟩ := (Graph.isReal_iff _ _).mp real
    simp [Session.empty, Graph.DependsOn] at depends

theorem forgetAll (session : Session) : session.forgetAll.Owned where
  mirrored := Graph.Mirrored.empty
  sources name real := empty.sources name real

theorem withoutSource (owned : session.Owned) (source : Path) :
    (session.withoutSource source).Owned :=
  ⟨owned.mirrored, owned.sources⟩

theorem withoutClass (owned : session.Owned) (name : String) :
    (session.withoutClass name).Owned where
  mirrored := owned.mirrored.delete name
  sources other real := by
    obtain ⟨type, isPrivate, depends⟩ := (Graph.isReal_iff _ _).mp real
    rw [graph_withoutClass, Graph.dependsOn_delete owned.mirrored] at depends
    obtain ⟨different, -, depends⟩ := depends
    rw [Std.ExtTreeMap.mem_iff_isSome_getElem?, getElem?_classToSource_withoutClass,
      if_neg different.symm, ← Std.ExtTreeMap.mem_iff_isSome_getElem?]
    exact owned.sources other ((Graph.isReal_iff _ _).mpr ⟨type, isPrivate, depends⟩)

theorem learn (owned : session.Owned) (abi : SourceAbi) (source : Path) :
    (session.learn abi source).Owned where
  mirrored := mirrored_learn owned.mirrored abi source
  sources name real := by
    rw [Std.ExtTreeMap.mem_iff_isSome_getElem?, getElem?_classToSource_learn]
    split
    next => rfl
    next different =>
      rw [← Std.ExtTreeMap.mem_iff_isSome_getElem?]
      rw [graph_learn, Graph.isReal_iff] at real
      simp only [Graph.dependsOn_update_of_ne _ (Ne.symm different)] at real
      exact owned.sources name ((Graph.isReal_iff _ _).mpr real)

theorem ofStored (owned : session.Owned) :
    (Session.ofStored session.classToSource session.graph).Owned :=
  ⟨owned.mirrored, owned.sources⟩

theorem mem_of_mem_impact (owned : session.Owned) {root name : String}
    (reached : name ∈ session.graph.impact root) : name ∈ session.classToSource := by
  obtain ⟨-, type, isPrivate, depends, -⟩ := owned.mirrored.mem_impact_iff.mp reached
  exact owned.sources name ((Graph.isReal_iff _ _).mpr ⟨type, isPrivate, depends⟩)

/-! ## Operations, however they end -/

variable (toolchain : Toolchain) (outputRoot : Path)

theorem moves_forgetClass (name : String) (source : Path) :
    Moves (Preserves Owned) (forgetClass toolchain outputRoot name source) := by
  refine Moves.bind preserves_current fun session => ?_
  split
  · exact Moves.bind (preserves_outside _) fun _ =>
      preserves_revise fun _ owned => owned.withoutClass name
  · exact Moves.pure _

theorem moves_refresh (sources : List Path) :
    Moves (Preserves Owned) (refresh toolchain outputRoot sources) := by
  have declares : Moves (Preserves Owned) (sources.mapM fun source => do
      let name ← SessionAction.consult fun _ files => toolchain.typeDeclaredBy files source
      pure (Declaration.mk source name)) := fun opened =>
    (ends_declarations toolchain sources opened).imp (fun _ _ same => by rw [same.1]; exact id)
      fun _ _ same => by rw [same]; exact id
  refine Moves.bind declares fun batch => Moves.bind (Moves.forM ?_) fun _ => Moves.forM ?_
  · intro declaration _
    refine Moves.bind preserves_current fun session => ?_
    split
    · exact Moves.pure _
    · split
      · exact moves_forgetClass toolchain outputRoot _ _
      · exact Moves.pure _
  · exact fun declaration _ => Moves.bind (preserves_look _) fun abi =>
      preserves_revise fun _ owned => owned.learn abi declaration.source

theorem moves_removeSources (sources : List Path) :
    Moves (Preserves Owned) (removeSources toolchain outputRoot sources) := by
  refine Moves.forM fun source _ => Moves.bind preserves_current fun session => ?_
  split
  · exact Moves.pure _
  · exact Moves.bind (preserves_revise fun _ owned => owned.withoutSource source) fun _ =>
      moves_forgetClass toolchain outputRoot _ _

end Owned

/-- One operation, whether it succeeds or stops part way.  Between operations anything may happen to
the files; a cache file is opened while it reads as it did when it was stored, or when it cannot be
loaded at all. -/
inductive Tries (toolchain : Toolchain) : OpenSession → OpenSession → Prop
  | elsewhere (session : Session) (world next : World) : Tries toolchain ⟨session, world⟩
      ⟨session, next⟩
  | reset (before : OpenSession) (cacheFile : Path) :
      Tries toolchain before (stateAfter (Session.reset cacheFile) before)
  | remove (before : OpenSession) (outputRoot : Path) (sources : List Path) :
      Tries toolchain before (stateAfter (removeSources toolchain outputRoot sources) before)
  | refresh (before : OpenSession) (outputRoot : Path) (sources : List Path) :
      Tries toolchain before (stateAfter (Session.refresh toolchain outputRoot sources) before)
  | persist (before : OpenSession) (cacheFile : Path) :
      Tries toolchain before (stateAfter (Session.persist cacheFile) before)
  | reopen {before stored : OpenSession} {cacheFile : Path} {session : Session}
      {world next : World} (stores : Session.persist cacheFile before = .ok () stored)
      (storable : before.session.Storable)
      (unchanged : world.files.read cacheFile = stored.world.files.read cacheFile)
      (opens : start cacheFile world = .ok session next) : Tries toolchain before ⟨session, next⟩
  | restart (before : OpenSession) {cacheFile : Path} {session : Session} {world next : World}
      (unreadable : ∀ loaded, load world.files cacheFile ≠ .ok loaded)
      (opens : start cacheFile world = .ok session next) : Tries toolchain before ⟨session, next⟩

theorem Owned.tries {toolchain : Toolchain} {before after : OpenSession}
    (owned : before.session.Owned) (step : Tries toolchain before after) :
    after.session.Owned := by
  cases step with
  | elsewhere => exact owned
  | reset =>
      rw [(ends_reset _ before).stateAfter]
      exact forgetAll _
  | remove => exact (moves_removeSources toolchain _ _ before).stateAfter owned
  | refresh => exact (moves_refresh toolchain _ _ before).stateAfter owned
  | persist =>
      rw [(ends_persist _ before).stateAfter]
      exact owned
  | reopen stores storable unchanged opens =>
      rcases eq_of_start unchanged storable stores opens with same | same
      · exact same ▸ owned.ofStored
      · exact same ▸ Owned.empty
  | restart _ unreadable opens =>
      have starts := (ends_start ⟨⟩ (ends_true _ _)).of_ok opens
      rcases starts with ⟨loads, -⟩ | ⟨rfl, -⟩
      · exact absurd loads (unreadable _)
      · exact Owned.empty

/-- When no type is found in a source, it could not be read or not be understood. -/
def ResolvesOrFails (toolchain : Toolchain) : Prop :=
  ∀ files path error, toolchain.typeDeclaredBy files path = .error error →
    (∃ fault, error = .io fault) ∨ ∃ source reason, error = .sourceParse source reason

theorem typesAround_eq_unknownSource {toolchain : Toolchain} (resolves : ResolvesOrFails toolchain)
    {session : Session} {files : FileSystem} {path : Path} {text : String} :
    session.typesAround toolchain files path = .error (.unknownSource text) ↔
      files.pathExists path = false ∧ session.recordedType? path = none ∧ text = path.text := by
  rw [typesAround]
  cases present : files.pathExists path with
  | false =>
      cases session.recordedType? path with
      | none => simp [bind, Except.bind, pure, Except.pure, throw, throwThe, MonadExceptOf.throw,
          @eq_comm _ path.text]
      | some name => simp [bind, Except.bind, pure, Except.pure]
  | true =>
      cases declares : toolchain.typeDeclaredBy files path with
      | ok name => simp [bind, Except.bind, pure, Except.pure]
      | error error =>
          rcases resolves _ _ _ declares with ⟨fault, rfl⟩ | ⟨source, reason, rfl⟩
          · simp [bind, Except.bind]
          · simp [bind, Except.bind]

/-- After any operations, even ones that stopped part way, each class with dependencies is recorded
under a source, and with it each class that a change reaches.  So the impact of a change is unknown
exactly when its source is gone and was never recorded. -/
theorem dependents_have_sources {toolchain : Toolchain} {world : World} {opened : OpenSession}
    (operations : Relation.ReflTransGen (Tries toolchain) ⟨.empty, world⟩ opened) :
    (∀ name, opened.session.graph.isReal name → name ∈ opened.session.classToSource) ∧
    (∀ root name, name ∈ opened.session.graph.impact root →
      name ∈ opened.session.classToSource) ∧
    (ResolvesOrFails toolchain → ∀ (files : FileSystem) (path : Path) (text : String),
      opened.session.impactOf toolchain files path = .error (.unknownSource text) ↔
        files.pathExists path = false ∧ opened.session.recordedType? path = none ∧
          text = path.text) := by
  have owned : opened.session.Owned := by
    induction operations with
    | refl => exact Owned.empty
    | tail _ step ih => exact ih.tries step
  refine ⟨owned.sources, fun _ _ => owned.mem_of_mem_impact, fun resolves files path text => ?_⟩
  rw [← typesAround_eq_unknownSource resolves, impactOf]
  cases opened.session.typesAround toolchain files path with
  | error error => simp [bind, Except.bind]
  | ok names =>
      have found : ∃ sources, (names.toList.flatMap fun name =>
          (opened.session.graph.impact name).toList).mapM opened.session.sourceOf = .ok sources := by
        refine exists_mapM_eq_ok fun name listed => ?_
        obtain ⟨root, -, reached⟩ := List.mem_flatMap.mp listed
        have known := owned.mem_of_mem_impact (Std.ExtTreeSet.mem_toList.mp reached)
        rw [Std.ExtTreeMap.mem_iff_isSome_getElem?, Option.isSome_iff_exists] at known
        obtain ⟨source, belongs⟩ := known
        exact ⟨source, by rw [sourceOf, belongs]⟩
      obtain ⟨sources, looks⟩ := found
      simp [bind, Except.bind, looks, pure, Except.pure]

section Halfway

/-- Two sources, of which only the first one has a unit. -/
def halfCompiled : World where
  files :=
    { entries := Std.ExtTreeMap.ofList
        [(["out"], .directory), (["out", "A.class"], .file (Text.Utf8.encode "A\npublic B")),
          (["src"], .directory), (["src", "A.java"], .file (Text.Utf8.encode "A\npublic B")),
          (["src", "B.java"], .file (Text.Utf8.encode "B"))] compare
      host := { workingDirectory := [] } }

def bothSources : List Path := [⟨"src/A.java"⟩, ⟨"src/B.java"⟩]

/-- The session after it was to take in both sources. -/
def halfway : OpenSession :=
  stateAfter (refresh PlainText.toolchain ⟨"out"⟩ bothSources) ⟨.empty, halfCompiled⟩

private theorem halfway_holds :
    returns (refresh PlainText.toolchain ⟨"out"⟩ bothSources) ⟨.empty, halfCompiled⟩ = false ∧
    halfway.session.graph.isReal "A" ∧
    halfway.session.recordedType? ⟨"src/C.java"⟩ = none ∧
    halfCompiled.files.pathExists ⟨"src/C.java"⟩ = false := by
  decide +kernel

private theorem resolvesOrFails_plainText : ResolvesOrFails PlainText.toolchain := by
  intro files path error fails
  change PlainText.typeDeclaredBy files path = _ at fails
  rw [PlainText.typeDeclaredBy] at fails
  cases text : files.readText path with
  | error fault =>
      rw [text] at fails
      exact .inl ⟨fault, (Except.error.inj fails).symm⟩
  | ok content =>
      rw [text] at fails
      cases named : PlainText.typeName? content with
      | none =>
          simp only [Except.mapError, bind, Except.bind, named] at fails
          exact .inr ⟨path, _, (Except.error.inj fails).symm⟩
      | some name =>
          simp only [Except.mapError, bind, Except.bind, named] at fails
          cases fails

/-- The second unit is missing, so the refresh stops after the first one. -/
theorem dependents_have_sources_halfway :
    returns (refresh PlainText.toolchain ⟨"out"⟩ bothSources) ⟨.empty, halfCompiled⟩ = false ∧
      "A" ∈ halfway.session.classToSource ∧
      halfway.session.impactOf PlainText.toolchain halfCompiled.files ⟨"src/C.java"⟩ =
        .error (.unknownSource "src/C.java") := by
  obtain ⟨stops, real, unrecorded, gone⟩ := halfway_holds
  have operations : Relation.ReflTransGen (Tries PlainText.toolchain) ⟨.empty, halfCompiled⟩
      halfway := .single (.refresh ⟨.empty, halfCompiled⟩ ⟨"out"⟩ bothSources)
  obtain ⟨sources, -, unknown⟩ := dependents_have_sources operations
  exact ⟨stops, sources "A" real,
    (unknown resolvesOrFails_plainText _ _ _).mpr ⟨gone, unrecorded, rfl⟩⟩

end Halfway

end Session

end AbiBuild
