import AbiBuild.Proofs.Changes.States

/-!
# What the detector keeps

Looking for changes leaves the files alone.  Saving leaves the digests of this run behind, and
clearing leaves the old ones or none.  Nothing else changes either way.
-/

namespace AbiBuild

open Files FileSystem MessagePack

namespace Changes

/-- What is stored at a path, if it can be read. -/
def stored? {α : Type} (reader : Reader α) (files : FileSystem) (path : Path) : Option α :=
  (files.read path).toOption.bind (decodeState reader)

theorem ends_readState {α : Type} (reader : Reader α) (path : Path) (world : World) :
    Ends (readState reader path) world
      (fun value next => value = stored? reader world.files path ∧ next.files = world.files)
      (fun _ _ => False) := by
  rw [readState, ends_bind, ends_inspect, stored?]
  cases world.files.read path with
  | error fault => exact ⟨rfl, rfl⟩
  | ok bytes =>
      dsimp only [Except.toOption, Option.bind]
      cases decodeState reader bytes with
      | none => exact ⟨rfl, rfl⟩
      | some value => exact ⟨rfl, rfl⟩

namespace Detector

variable (detector : Detector) (pair : RootPair) (world : World)

def directoryOf (files : FileSystem) : Path := detector.root.join (pair.key files.directory)

@[simp] theorem ends_stateDirectory (done : Path → World → Prop)
    (failed : BuildError → World → Prop) :
    Ends (detector.stateDirectory pair) world done failed ↔
      done (detector.directoryOf pair world.files) world := Iff.rfl

theorem ends_sourceStates (extension : String) :
    Ends (detector.sourceStates pair extension) world
      (fun found next => next.files = world.files ∧ ∃ contents,
        sourceContents world.files pair.source extension = .ok contents ∧
        found = (statesBetween ((stored? digestsReader world.files
            ((detector.directoryOf pair world.files).join sourcesFile)).getD ∅) (digestsOf contents),
          { detector with sourceDigests := some (digestsOf contents) }))
      (fun _ next => next.files = world.files) := by
  simp only [sourceStates, ends_bind, ends_consult, ends_stateDirectory, ends_pure]
  cases lists : sourceContents world.files pair.source extension with
  | error fault => trivial
  | ok contents =>
      simp only [Except.mapError]
      generalize detector.directoryOf pair world.files = directory
      refine (ends_readState digestsReader _ world).imp ?_ fun _ _ => False.elim
      rintro previous next ⟨rfl, same⟩
      exact ⟨same, contents, rfl, rfl⟩

theorem ends_classpathChanged (classpath : List Path) :
    Ends (detector.classpathChanged pair classpath) world
      (fun found next => next.files = world.files ∧ ∃ digest,
        found = (decide (stored? digestReader world.files
            ((detector.directoryOf pair world.files).join classpathFile) ≠ some digest),
          { detector with classpathDigest := some digest }))
      (fun _ next => next.files = world.files) := by
  simp only [classpathChanged, ends_bind, ends_consult, ends_stateDirectory, ends_pure]
  cases classpathStream world.files classpath with
  | error fault => trivial
  | ok stream =>
      simp only [Except.mapError]
      generalize detector.directoryOf pair world.files = directory
      refine (ends_readState digestReader _ world).imp ?_ fun _ _ => False.elim
      rintro previous next ⟨rfl, same⟩
      exact ⟨same, _, rfl⟩

section Store

variable {detector pair world} {directory : Path}

theorem below_directoryOf (plain : detector.root.Plain) (files : FileSystem) :
    Below detector.root (detector.directoryOf pair files) :=
  (Below.refl plain).join (pair.isName_key _)

theorem ends_replaceDigests {root : Path} (below : Below root directory) {stem : String}
    (isName : IsName stem) (content : Bytes) (files : FileSystem) :
    Ends (replaceFile (directory.join (stem ++ "." ++ "bin")) content) files
      (fun _ next => Within root files next ∧
        next.Holds (directory.join (stem ++ "." ++ "bin")) content)
      (fun _ next => Within root files next) := by
  have near : ∀ extension, '/' ∉ extension.toList →
      Near root (directory.join (stem ++ "." ++ extension)) :=
    fun extension whole => (below.join (isName.withExtension whole)).near
  refine (ends_replaceFile_join below.plain isName content files).imp ?_ ?_
  · rintro _ next ⟨touches, holds⟩
    exact ⟨touches.within (by simpa using ⟨near "tmp" (by decide), near "bin" (by decide)⟩), holds⟩
  · intro _ next touches
    exact touches.within (by simpa using near "tmp" (by decide))

theorem ends_save (plain : detector.root.Plain) {digest : UInt64} {digests : SourceDigests}
    (classpath : detector.classpathDigest = some digest)
    (sources : detector.sourceDigests = some digests) :
    Ends (detector.save pair) world
      (fun _ next => Within detector.root world.files next.files ∧
        next.files.Holds ((detector.directoryOf pair world.files).join sourcesFile)
          (encodeDigests digests))
      (fun _ next => Within detector.root world.files next.files) := by
  have below : Below detector.root (detector.directoryOf pair world.files) :=
    below_directoryOf plain _
  simp only [save, ends_bind, ends_stateDirectory, ends_change, classpath, sources]
  generalize detector.directoryOf pair world.files = directory at below
  refine (moves_makeDirectories below.near world.files).imp ?_ fun _ _ within => within
  intro _ made within
  have classpathStem : IsName "classpath_hash" := by constructor <;> decide
  have sourcesStem : IsName "sources_hash" := by constructor <;> decide
  refine (ends_replaceDigests below classpathStem _ made).imp ?_ fun _ _ => Accumulates.trans within
  rintro _ first ⟨touched, -⟩
  have within := Accumulates.trans within touched
  refine (ends_replaceDigests below sourcesStem _ first).imp ?_ fun _ _ => Accumulates.trans within
  rintro _ next ⟨touched, holds⟩
  exact ⟨Accumulates.trans within touched, holds⟩

theorem ends_clear (plain : detector.root.Plain) :
    Ends (detector.clear pair) world
      (fun _ next => Clears detector.root world.files next.files ∧
        (Keeps (detector.directoryOf pair world.files) world.files next.files ∨
          Bare (detector.directoryOf pair world.files) next.files))
      (fun _ next => Clears detector.root world.files next.files ∧
        (Keeps (detector.directoryOf pair world.files) world.files next.files ∨
          Bare (detector.directoryOf pair world.files) next.files)) := by
  have below : Below detector.root (detector.directoryOf pair world.files) :=
    below_directoryOf plain _
  simp only [clear, ends_bind, ends_stateDirectory, ends_change]
  generalize detector.directoryOf pair world.files = directory at below
  exact (moves_ignoreMissing (moves_removeTree below) world.files).and
    (moves_ignoreMissing (moves_removeTree_whole below.plain) world.files)

theorem ends_clear_bare (plain : detector.root.Plain) (wellFormed : world.files.WellFormed)
    (honest : some .notFound ∉ world.files.refusals) :
    Ends (detector.clear pair) world
      (fun _ next => Bare (detector.directoryOf pair world.files) next.files)
      (fun _ _ => True) := by
  have below : Below detector.root (detector.directoryOf pair world.files) :=
    below_directoryOf plain _
  simp only [clear, ends_bind, ends_stateDirectory, ends_change]
  generalize detector.directoryOf pair world.files = directory at below
  exact ends_removeTree_bare wellFormed below.plain honest

end Store

end Detector

end Changes

end AbiBuild
