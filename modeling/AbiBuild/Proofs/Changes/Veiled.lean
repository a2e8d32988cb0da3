import AbiBuild.Proofs.Build.Veiled
import AbiBuild.Proofs.Changes.Detector
import AbiBuild.Proofs.Changes.Keys

/-!
# Looking for changes does not see what is hidden

Digests are found, compared and stored alike in two trees that differ only in what is hidden, where
the sources, the class path and the stored digests stay away from that.
-/

namespace AbiBuild

open Files FileSystem Veil Changes

variable {veil : Veil} {files other : FileSystem} {path directory : Path}

/-! ## What is looked at -/

namespace Changes

theorem streamOfEntry_alike (alike : veil.Alike files other) (clears : veil.Clears path) :
    streamOfEntry other path = streamOfEntry files path := by
  rw [streamOfEntry, streamOfEntry, alike.isDirectory clears.shows, alike.isFile clears.shows,
    alike.walk clears, alike.read clears.shows]

theorem shows_of_mem_walk (alike : veil.Alike files other) (clears : veil.Clears directory)
    {wanted : Path → Bool} {found : List (Path × Entry)}
    (walks : files.walk wanted directory = .ok found) : ∀ entry ∈ found, veil.Shows entry.1 := by
  obtain ⟨place, top, -, -, -, rfl⟩ := walk_eq_ok_iff.mp walks
  simp only [List.forall_mem_map, List.forall_mem_cons]
  refine ⟨clears.shows, ?_⟩
  rintro ⟨there, entry⟩ member
  have named := alike.named _ _ ((mem_below _ _ _).mp member).2
  have isName : ∀ name ∈ there, IsName name :=
    fun name listed => named name (List.mem_append_right _ listed)
  exact (clears.foldl_join isName).shows

theorem shows_of_mem_sourceContents (alike : veil.Alike files other) (clears : veil.Clears directory)
    {extension : String} {contents : List (String × Bytes)}
    (lists : sourceContents files directory extension = .ok contents) :
    ∀ source ∈ contents, veil.Shows ⟨source.1⟩ := by
  obtain ⟨found, walks, rfl⟩ := sourceContents_eq_ok.mp lists
  intro source listed
  obtain ⟨entry, member, picked⟩ := List.mem_filterMap.mp listed
  obtain ⟨-, rfl⟩ := sourceContent?_eq_some.mp picked
  exact shows_of_mem_walk alike clears walks _ member

theorem showsSources_foldl_put {entries : List (Path × SourceState)} {states : SourceStates}
    (known : ∀ path ∈ states, veil.Shows path) (shown : ∀ entry ∈ entries, veil.Shows entry.1) :
    ∀ path ∈ entries.foldl (fun states (path, state) => PathMap.put states path state) states,
      veil.Shows path := by
  induction entries generalizing states with
  | nil => exact known
  | cons entry entries ih =>
      rw [List.forall_mem_cons] at shown
      refine ih (fun path member => ?_) shown.2
      rcases (PathMap.mem_put states entry.1 entry.2 path).mp member with same | before
      · exact shown.1.congr same.symm
      · exact known path before

theorem showsSources_statesBetween {previous current : SourceDigests}
    (known : ∀ text ∈ previous, veil.Shows ⟨text⟩) (shown : ∀ text ∈ current, veil.Shows ⟨text⟩) :
    veil.ShowsSources (statesBetween previous current) := by
  have listed : ∀ {digests : SourceDigests}, (∀ text ∈ digests, veil.Shows ⟨text⟩) →
      ∀ entry ∈ digests.toList, veil.Shows ⟨entry.1⟩ :=
    fun shown entry member => shown _ (mem_toList_iff.mpr ⟨_, member⟩)
  rintro ⟨path, state⟩ member
  have there := (PathMap.getElem?_eq_some_iff _ path state).mpr ⟨path, member, rfl⟩
  have inside : path ∈ statesBetween previous current := by
    rw [Std.ExtTreeMap.mem_iff_isSome_getElem?, there]
    rfl
  rw [statesBetween_eq] at inside
  refine showsSources_foldl_put (showsSources_foldl_put (by simp) ?_) ?_ path inside
  · intro entry member
    obtain ⟨source, now, rfl⟩ := List.mem_map.mp member
    exact listed shown source now
  · intro entry member
    obtain ⟨source, before, rfl⟩ := List.mem_map.mp member
    exact listed known source (List.mem_filter.mp before).1

theorem inStep_readState {α : Type} (reader : MessagePack.Reader α) (shows : veil.Shows path) :
    InStep veil.WorldsAlike (readState reader path) := by
  rw [readState]
  refine InStep.bind (inStep_inspectFiles fun _ _ alike => alike.read shows) fun found => ?_
  split
  · exact InStep.pure _
  · split
    · exact InStep.pure _
    · exact InStep.bind (inStep_tell _) fun _ => InStep.pure _

/-! ## The detector -/

theorem shows_stateFile (clears : veil.Clears directory) {stem : String} (isName : IsName stem) :
    veil.Shows (directory.join (stem ++ "." ++ "bin")) ∧
      veil.Shows ((directory.join (stem ++ "." ++ "bin")).withExtension "tmp") := by
  have stored : IsName (stem ++ "." ++ "bin") := isName.withExtension (by decide)
  have temporary : IsName (stem ++ "." ++ "tmp") := isName.withExtension (by decide)
  exact ⟨(clears.join stored).shows,
    (clears.join temporary).shows.congr (Path.location_withExtension_state isName directory)⟩

theorem inStep_replaceState (clears : veil.Clears directory) {stem : String} (isName : IsName stem)
    (content : Bytes) :
    InStep veil.WorldsAlike
      (BuildAction.change (replaceFile (directory.join (stem ++ "." ++ "bin")) content)) :=
  inStep_changeFiles (inStep_replaceFile (shows_stateFile clears isName).1
    (shows_stateFile clears isName).2 content)

namespace Detector

variable {detector : Detector} {pair : RootPair}

theorem sources_of_sourceStates {world next : World} {extension : String}
    {found : PathMap SourceState × Detector} (clears : veil.Clears pair.source)
    (alike : veil.Alike world.files other)
    (known : ∀ digests, stored? digestsReader world.files
      ((detector.directoryOf pair world.files).join sourcesFile) = some digests →
        ∀ text ∈ digests, veil.Shows ⟨text⟩)
    (returns : detector.sourceStates pair extension world = .ok found next) :
    next.files = world.files ∧ found.2.root = detector.root ∧ veil.ShowsSources found.1 := by
  obtain ⟨same, contents, lists, rfl⟩ := (ends_sourceStates detector pair world extension).of_ok returns
  refine ⟨same, rfl, ?_⟩
  dsimp only
  refine showsSources_statesBetween (fun text member => ?_) fun text member => ?_
  · cases stored : stored? digestsReader world.files
        ((detector.directoryOf pair world.files).join sourcesFile) with
    | none => simp [stored] at member
    | some digests =>
        rw [stored] at member
        exact known digests stored text member
  · obtain ⟨content, listed⟩ := mem_digestsOf.mp member
    exact shows_of_mem_sourceContents alike clears lists (text, content) listed

theorem inStep_stateDirectory_bind {α : Type} {next : Path → BuildAction α}
    (goesOn : InStep veil.WorldsAlike (next (detector.directoryOf pair veil.before))) :
    InStep veil.WorldsAlike (detector.stateDirectory pair >>= next) := by
  rw [stateDirectory, bind_assoc]
  refine inStep_directory_bind ?_
  rw [pure_bind]
  exact goesOn

theorem root_of_classpathChanged {world next : World} {classpath : List Path} {found : Bool × Detector}
    (returns : detector.classpathChanged pair classpath world = .ok found next) :
    next.files = world.files ∧ found.2.root = detector.root := by
  obtain ⟨same, digest, rfl⟩ :=
    (ends_classpathChanged detector pair world classpath).of_ok returns
  exact ⟨same, rfl⟩

variable (clears : veil.Clears (detector.directoryOf pair veil.before))
include clears

theorem inStep_sourceStates {extension : String} (source : veil.Clears pair.source) :
    InStep veil.WorldsAlike (detector.sourceStates pair extension) := by
  have sourcesStem : IsName "sources_hash" := by constructor <;> decide
  rw [sourceStates]
  refine InStep.bind (inStep_consultFiles fun files other alike => ?_) fun contents => ?_
  · rw [sourceContents, sourceContents, alike.walk source]
  · refine inStep_stateDirectory_bind ?_
    exact InStep.bind (inStep_readState _ (shows_stateFile clears sourcesStem).1) fun _ =>
      InStep.pure _

theorem inStep_classpathChanged {classpath : List Path}
    (entries : ∀ entry ∈ classpath, veil.Clears entry) :
    InStep veil.WorldsAlike (detector.classpathChanged pair classpath) := by
  have classpathStem : IsName "classpath_hash" := by constructor <;> decide
  rw [classpathChanged]
  refine InStep.bind (inStep_consultFiles fun files other alike => ?_) fun stream => ?_
  · rw [classpathStream, classpathStream,
      flatMapM_congr fun entry listed => streamOfEntry_alike alike (entries entry listed)]
  · refine inStep_stateDirectory_bind ?_
    exact InStep.bind (inStep_readState _ (shows_stateFile clears classpathStem).1) fun _ =>
      InStep.pure _

theorem inStep_save : InStep veil.WorldsAlike (detector.save pair) := by
  have classpathStem : IsName "classpath_hash" := by constructor <;> decide
  have sourcesStem : IsName "sources_hash" := by constructor <;> decide
  rw [save]
  refine inStep_stateDirectory_bind (InStep.bind
    (inStep_changeFiles (inStep_makeDirectories clears.shows)) fun _ => ?_)
  have replaces : ∀ {stem}, IsName stem → ∀ content, InStep veil.WorldsAlike (BuildAction.change
      (replaceFile ((detector.directoryOf pair veil.before).join (stem ++ "." ++ "bin")) content)) :=
    inStep_replaceState clears
  cases detector.classpathDigest with
  | none =>
      cases detector.sourceDigests with
      | none => exact InStep.pure ()
      | some digests => exact replaces sourcesStem _
  | some digest =>
      refine InStep.bind (replaces classpathStem _) fun _ => ?_
      cases detector.sourceDigests with
      | none => exact InStep.pure ()
      | some digests => exact replaces sourcesStem _

theorem inStep_clear : InStep veil.WorldsAlike (detector.clear pair) := by
  rw [clear]
  exact inStep_stateDirectory_bind (inStep_changeFiles
    (inStep_ignoreMissing (inStep_removeTree clears)))

end Detector

end Changes

end AbiBuild
