import AbiBuild.Proofs.Dependency.Mirrored
import AbiBuild.Proofs.Session.Cache

/-!
# Sessions that builds lead to

A build resets, removes, refreshes and stores a session, and a later build opens what was stored.
On the way types and sources stay in pairs and every dependency keeps both of its sides.
-/

namespace AbiBuild.Session

open Files Dependency

/-! ## Both sides of each dependency -/

section Mirrored

variable {session : Session}

theorem mirrored_withoutOwned (mirrored : session.graph.Mirrored) (name : String) (source : Path) :
    (session.withoutOwned name source).graph.Mirrored := by
  unfold withoutOwned
  split
  · exact mirrored.delete name
  · exact mirrored

theorem mirrored_dropPrevious (mirrored : session.graph.Mirrored) (batch : List Declaration)
    (declaration : Declaration) : (session.dropPrevious batch declaration).graph.Mirrored := by
  unfold dropPrevious
  split
  · exact mirrored
  · split
    · exact mirrored_withoutOwned mirrored _ _
    · exact mirrored

theorem mirrored_dropSource (mirrored : session.graph.Mirrored) (source : Path) :
    (session.dropSource source).graph.Mirrored := by
  unfold dropSource
  split
  · exact mirrored
  · have kept : (session.withoutSource source).graph.Mirrored := mirrored
    exact mirrored_withoutOwned kept _ _

theorem mirrored_learn (mirrored : session.graph.Mirrored) (abi : SourceAbi) (source : Path) :
    (session.learn abi source).graph.Mirrored := by
  rw [learn, graph_record]
  exact mirrored.update abi

private theorem mirrored_foldl {α : Type} {step : Session → α → Session}
    (keeps : ∀ session value, session.graph.Mirrored → (step session value).graph.Mirrored)
    (mirrored : session.graph.Mirrored) (values : List α) :
    (values.foldl step session).graph.Mirrored := by
  induction values generalizing session with
  | nil => exact mirrored
  | cons value values ih => exact ih (keeps session value mirrored)

end Mirrored

/-! ## Steps of builds -/

/-- Each unit is read as one of the type that it was looked up under. -/
def ReadsFaithfully (toolchain : Toolchain) (outputRoot : Path) (sources : List Path)
    (before after : FileSystem) : Prop :=
  ∀ source ∈ sources, ∀ name abi, toolchain.typeDeclaredBy before source = .ok name →
    toolchain.surfaceOf after (Outputs.unitPath outputRoot name toolchain.outputExtension) =
      .ok abi → abi.className = name

instance (toolchain : Toolchain) (outputRoot : Path) (sources : List Path)
    (before after : FileSystem) :
    Decidable (ReadsFaithfully toolchain outputRoot sources before after) :=
  decidable_of_iff (∀ source ∈ sources, (toolchain.typeDeclaredBy before source).toOption.all
    fun name => (toolchain.surfaceOf after
      (Outputs.unitPath outputRoot name toolchain.outputExtension)).toOption.all
        (·.className = name)) <| by
    refine forall_congr' fun source => forall_congr' fun _ => ?_
    cases toolchain.typeDeclaredBy before source with
    | error error => simp [Except.toOption]
    | ok name =>
        constructor
        · intro agrees other abi declares reads
          obtain rfl := Except.ok.inj declares
          simpa [Except.toOption, reads] using agrees
        · intro faithful
          cases reads : toolchain.surfaceOf after
              (Outputs.unitPath outputRoot name toolchain.outputExtension) with
          | error error => simp [Except.toOption, reads]
          | ok abi => simpa [Except.toOption, reads] using faithful name abi rfl reads

/-- The sessions that the steps of builds lead to.  What was stored is opened again with the sources
of the types and the graph, as reading the cache file gives them back. -/
inductive Reached (toolchain : Toolchain) : Session → Prop
  | empty : Reached toolchain .empty
  | reset {opened next : OpenSession} {cacheFile : Path} (before : Reached toolchain opened.session)
      (succeeds : Session.reset cacheFile opened = .ok () next) : Reached toolchain next.session
  | remove {opened next : OpenSession} {outputRoot : Path} {sources : List Path}
      (before : Reached toolchain opened.session)
      (succeeds : removeSources toolchain outputRoot sources opened = .ok () next) :
      Reached toolchain next.session
  | refresh {opened next : OpenSession} {outputRoot : Path} {sources : PathSet}
      (before : Reached toolchain opened.session)
      (succeeds : Session.refresh toolchain outputRoot sources.toList opened = .ok () next)
      (faithful : ReadsFaithfully toolchain outputRoot sources.toList opened.world.files
        next.world.files) : Reached toolchain next.session
  | reopen {session : Session} (before : Reached toolchain session) :
      Reached toolchain (ofStored session.classToSource session.graph)

theorem Refreshed.className_eq {toolchain : Toolchain} {outputRoot : Path} {sources : List Path}
    {before after : OpenSession} {learned : List (Declaration × SourceAbi)}
    (refreshed : Refreshed toolchain outputRoot sources before after learned)
    (faithful : ReadsFaithfully toolchain outputRoot sources before.world.files
      after.world.files) : ∀ entry ∈ learned, entry.2.className = entry.1.name :=
  fun entry member => faithful _ (refreshed.mem_sources member) _ _
    (refreshed.declared entry member) (refreshed.surfaces entry member)

theorem Paired.refresh {toolchain : Toolchain} {outputRoot : Path} {sources : PathSet}
    {before after : OpenSession} {learned : List (Declaration × SourceAbi)}
    (paired : before.session.Paired)
    (refreshed : Refreshed toolchain outputRoot sources.toList before after learned)
    (faithful : ReadsFaithfully toolchain outputRoot sources.toList before.world.files
      after.world.files) : after.session.Paired := by
  refine paired.refreshed refreshed (refreshed.className_eq faithful) ?_
  exact refreshed.pairwise_location.imp fun different same => absurd same.symm different

theorem mirrored_refreshed {toolchain : Toolchain} {outputRoot : Path} {sources : List Path}
    {before after : OpenSession} {learned : List (Declaration × SourceAbi)}
    (mirrored : before.session.graph.Mirrored)
    (refreshed : Refreshed toolchain outputRoot sources before after learned) :
    after.session.graph.Mirrored := by
  rw [refreshed.session]
  refine mirrored_foldl (fun session entry mirrored => mirrored_learn mirrored _ _) ?_ learned
  exact mirrored_foldl (fun session declaration mirrored => mirrored_dropPrevious mirrored _ _)
    mirrored _

theorem Reached.sound {toolchain : Toolchain} {session : Session}
    (reached : Reached toolchain session) : session.Paired ∧ session.graph.Mirrored := by
  induction reached with
  | empty => exact ⟨paired_empty, Graph.Mirrored.empty⟩
  | @reset opened next cacheFile _ succeeds _ =>
      have changed := (ends_reset cacheFile opened).of_ok succeeds
      rw [changed]
      exact ⟨paired_forgetAll _, Graph.Mirrored.empty⟩
  | @remove opened next outputRoot sources _ succeeds sound =>
      have changed := (ends_removeSources toolchain outputRoot sources opened).of_ok succeeds
      rw [changed]
      exact ⟨sound.1.foldl_dropSource sources,
        mirrored_foldl (fun _ source mirrored => mirrored_dropSource mirrored source) sound.2 _⟩
  | @refresh opened next outputRoot sources _ succeeds faithful sound =>
      obtain ⟨learned, refreshed⟩ :=
        (ends_refresh toolchain outputRoot sources.toList opened).of_ok succeeds
      exact ⟨sound.1.refresh refreshed faithful, mirrored_refreshed sound.2 refreshed⟩
  | reopen _ sound => exact ⟨sound.1.ofStored _, sound.2⟩

end AbiBuild.Session
