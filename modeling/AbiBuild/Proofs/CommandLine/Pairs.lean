import AbiBuild.Proofs.Changes.Veiled
import AbiBuild.Proofs.CommandLine.Forgetting

/-!
# Pairs of roots keep to themselves

What is stored for one pair of roots is neither read nor touched when another pair is compiled or
cleared, as long as the digest tells the texts behind their keys apart.  The texts are different
unless components of one pair are shifted against those of the other.
-/

namespace AbiBuild

open Files FileSystem Veil Changes

variable {veil : Veil} {layout : CacheLayout} {toolchain : Toolchain} {pair : RootPair}
  {classpath : List Path}

structure Files.Veil.Stores (veil : Veil) (layout : CacheLayout) (pair : RootPair) : Prop where
  digests : veil.Clears (layout.stateDirectory pair veil.before.directory)
  session : veil.Shows (layout.sessionFile pair veil.before.directory)
  temporary : veil.Shows ((layout.sessionFile pair veil.before.directory).withExtension "tmp")

/-- What a pair is compiled from and to stays away from what is hidden. -/
structure Files.Veil.Admits (veil : Veil) (pair : RootPair) (classpath : List Path) : Prop where
  source : veil.Clears pair.source
  output : veil.Clears pair.output
  classpath : ∀ entry ∈ classpath, veil.Clears entry

/-- What is stored for a pair does not lead to what is hidden. -/
structure Files.Veil.Recalls (veil : Veil) (layout : CacheLayout) (pair : RootPair) : Prop where
  digests : ∀ digests, stored? digestsReader veil.before
    ((layout.stateDirectory pair veil.before.directory).join sourcesFile) = some digests →
      ∀ text ∈ digests, veil.Shows ⟨text⟩
  session : ∀ session, Session.load veil.before (layout.sessionFile pair veil.before.directory) =
    .ok session → veil.Knows session

/-! ## What is stored for one pair -/

namespace CacheLayout

/-- What is stored for a pair is out of sight. -/
def veilOver (layout : CacheLayout) (pair : RootPair) (files other : FileSystem) : Veil where
  hidden := [(layout.sessionFile pair files.directory).placeFrom files.host.workingDirectory,
    (layout.stateDirectory pair files.directory).placeFrom files.host.workingDirectory]
  before := files
  before' := other

variable {files other : FileSystem} {first second : RootPair} {path : Path}

theorem hidden_veilOver : (layout.veilOver second files other).hidden =
    [layout.root.placeFrom files.host.workingDirectory ++
        ["incremental", second.key files.directory ++ "." ++ "bin"],
      layout.root.placeFrom files.host.workingDirectory ++
        ["filesystem", second.key files.directory]] := by
  have session : (layout.sessionFile second files.directory).location = layout.root.location ++
      ["incremental", second.key files.directory ++ "." ++ "bin"].map .name :=
    layout.location_sessionFile second files.directory
  have digests : (layout.stateDirectory second files.directory).location = layout.root.location ++
      ["filesystem", second.key files.directory].map .name :=
    layout.location_stateDirectory second files.directory
  rw [veilOver, Path.placeFrom_of_location session, Path.placeFrom_of_location digests]

theorem clears_veilOver {kind name : String}
    (root : (layout.veilOver second files other).Shows layout.root)
    (location : path.location = layout.root.location ++ [kind, name].map .name)
    (session : [kind, name] ≠ ["incremental", second.key files.directory ++ "." ++ "bin"])
    (digests : [kind, name] ≠ ["filesystem", second.key files.directory]) :
    (layout.veilOver second files other).Clears path where
  shows := by
    refine root.of_location location fun front leads => ?_
    rintro ⟨above, member, inside⟩
    rw [hidden_veilOver] at member
    simp only [List.mem_cons, List.not_mem_nil, or_false] at member
    rcases member with rfl | rfl
    · have further := ((List.prefix_append_right_inj _).mp inside).trans leads
      exact session (further.eq_of_length rfl).symm
    · have further := ((List.prefix_append_right_inj _).mp inside).trans leads
      exact digests (further.eq_of_length rfl).symm
  below above member leads := by
    rw [Path.placeFrom_of_location location] at leads
    rw [hidden_veilOver] at member
    simp only [List.mem_cons, List.not_mem_nil, or_false] at member
    rcases member with rfl | rfl
    · exact session (((List.prefix_append_right_inj _).mp leads).eq_of_length rfl)
    · exact digests (((List.prefix_append_right_inj _).mp leads).eq_of_length rfl)

theorem stores_veilOver (apart : first.ToldApart second files.directory)
    (root : (layout.veilOver second files other).Shows layout.root) :
    (layout.veilOver second files other).Stores layout first := by
  have stored : '.' ∉ "bin".toList := by decide
  have replaced : '.' ∉ "tmp".toList := by decide
  have kinds : "incremental" ≠ "filesystem" := by decide
  have sessionRoot : layout.sessionRoot.location = layout.root.location ++ [.name "incremental"] :=
    Path.location_join _ (by constructor <;> decide)
  have temporary : IsName (first.key files.directory ++ "." ++ "tmp") :=
    (first.isName_key files.directory).withExtension (by decide)
  refine ⟨?_, ?_, ?_⟩
  · refine clears_veilOver root (layout.location_stateDirectory first files.directory) ?_ ?_
    · simp [kinds.symm]
    · simpa using apart.key_ne
  · refine (clears_veilOver root (layout.location_sessionFile first files.directory) ?_ ?_).shows
    · simpa using file_ne files.directory stored stored (.inl apart.key_ne)
    · simp [kinds]
  · have session : (layout.sessionRoot.join (first.key files.directory ++ "." ++ "tmp")).location =
        layout.root.location ++
          ["incremental", first.key files.directory ++ "." ++ "tmp"].map .name := by
      rw [Path.location_join _ temporary, sessionRoot]
      simp
    rw [sessionFile_eq]
    refine ((clears_veilOver root session ?_ ?_).congr
      (Path.location_withExtension_state (first.isName_key files.directory) _)).shows
    · simpa using @file_ne files.directory first second "tmp" "bin" replaced stored
        (.inr (by decide))
    · simp [kinds]

end CacheLayout

namespace CommandLine

/-! ## Commands -/

section Steps

variable {detector : Detector} (digests : veil.Clears (detector.directoryOf pair veil.before))
include digests

theorem inStep_finish (report : BuildReport) :
    InStep veil.WorldsAlike (finish detector pair report) := by
  rw [finish]
  split
  · exact Detector.inStep_save digests
  · exact InStep.bind (Detector.inStep_clear digests) fun _ => inStep_tell _

theorem buildOrRebuild_veiled {request : BuildRequest} {world other : World}
    (overlooks : toolchain.Disregards veil request.outputRoot request.classpath)
    (clears : veil.Clears request.outputRoot) (shows : veil.Shows request.cacheFile)
    (showsTemporary : veil.Shows (request.cacheFile.withExtension "tmp"))
    (shown : veil.ShowsSources request.sources)
    (recorded : ∀ session, Session.load world.files request.cacheFile = .ok session →
      veil.Knows session) (alike : veil.WorldsAlike world other) :
    EndRelated veil.WorldsAlike (buildOrRebuild toolchain detector pair request world)
      (buildOrRebuild toolchain detector pair request other) := by
  rw [buildOrRebuild]
  refine EndAlike.tryCatch ((Build.compileSources_veiled overlooks clears shows showsTemporary shown
    recorded alike).imp (fun _ _ _ => id) fun error next next' alike => ?_)
  split
  · refine InStep.bind (inStep_tell _) (fun _ => ?_) _ _ alike
    refine InStep.bind (Detector.inStep_clear digests) fun _ => ?_
    exact @Build.inStep_compileSources veil toolchain { request with classpathChanged := true }
      overlooks clears shows showsTemporary shown rfl
  · exact .failed alike

end Steps

section Commands

variable (stores : veil.Stores layout pair)
include stores

theorem inStep_clearPair : InStep veil.WorldsAlike (clearPair layout pair) := by
  have digests : veil.Clears
      (Detector.directoryOf ⟨layout.digestRoot, none, none⟩ pair veil.before) := stores.digests
  rw [clearPair]
  refine InStep.bind (Detector.inStep_clear digests) fun _ => inStep_directory_bind ?_
  refine InStep.bind (Session.inStep_start_veiled stores.session) fun session world other alike => ?_
  have opened : veil.SessionsAlike (fun _ => True) ⟨session, world⟩ ⟨session, other⟩ :=
    ⟨alike, rfl, trivial⟩
  exact run_alike (Session.reset_alike stores.session opened)

theorem compilePair_veiled (admits : veil.Admits pair classpath) (recalls : veil.Recalls layout pair)
    (overlooks : toolchain.Disregards veil pair.output (PathSet.ofList classpath))
    {world other : World} (start : world.files = veil.before) (alike : veil.WorldsAlike world other) :
    EndRelated veil.WorldsAlike (compilePair layout toolchain pair classpath world)
      (compilePair layout toolchain pair classpath other) := by
  have digests : ∀ detector : Detector, detector.root = layout.digestRoot →
      veil.Clears (detector.directoryOf pair veil.before) := by
    intro detector sameRoot
    rw [Detector.directoryOf, sameRoot]
    exact stores.digests
  have recorded : ∀ digests, stored? digestsReader world.files
      ((Detector.directoryOf ⟨layout.digestRoot, none, none⟩ pair world.files).join sourcesFile) =
        some digests → ∀ text ∈ digests, veil.Shows ⟨text⟩ := by
    rw [start]
    exact recalls.digests
  have asks := @Detector.inStep_sourceStates veil ⟨layout.digestRoot, none, none⟩ pair (digests _ rfl)
    toolchain.sourceExtension admits.source world other alike
  rw [compilePair]
  dsimp only
  refine EndRelated.bind (fun _ _ => id) asks ?_
  rintro ⟨sources, asked⟩ next next' returns alike'
  obtain ⟨same, sameRoot, shown⟩ :=
    Detector.sources_of_sourceStates admits.source alike.files recorded returns
  dsimp only
  split
  · exact InStep.bind (inStep_tell _) (fun _ => InStep.pure _) _ _ alike'
  have compares := Detector.inStep_classpathChanged (digests asked sameRoot) admits.classpath next next'
    alike'
  refine EndRelated.bind (fun _ _ => id) compares ?_
  rintro ⟨changed, detector⟩ last last' returns' alike'
  obtain ⟨same', sameRoot'⟩ := Detector.root_of_classpathChanged returns'
  refine directory_bind_alike alike' ?_
  have recalled : ∀ session, Session.load last.files
      (layout.sessionFile pair veil.before.directory) = .ok session → veil.Knows session := by
    rw [same', same, start]
    exact recalls.session
  have clears := digests detector (sameRoot'.trans sameRoot)
  have builds := @buildOrRebuild_veiled veil toolchain pair detector clears
    ⟨PathSet.ofList classpath, changed, pair.output, layout.sessionFile pair veil.before.directory,
      sources⟩ last last' overlooks admits.output stores.session stores.temporary shown recalled alike'
  refine EndRelated.bind (fun _ _ => id) builds fun report built built' _ alike => ?_
  exact InStep.bind (inStep_finish clears report) (fun _ => InStep.pure _) _ _ alike

end Commands

/-- An action ends alike whatever is stored for the pair, and leaves that as it was. -/
def KeepsOff (layout : CacheLayout) (pair : RootPair) {α : Type} (action : BuildAction α)
    (world other : World) : Prop :=
  EndRelated (layout.veilOver pair world.files other.files).WorldsAlike (action world) (action other)

/-- The texts behind the keys of two pairs are different where the absolute forms of their roots are,
unless some components of the forms are shifted against each other.  If the digest tells the texts
apart, the sessions and the digests of the two lie in different places; and compiling or clearing the
first pair keeps off what is stored for the second. -/
theorem pairs_keep_to_themselves (layout : CacheLayout) {first second form form' : RootPair}
    (world : World) (formed : first.absolute? world.files.directory = some form)
    (formed' : second.absolute? world.files.directory = some form')
    (different : ¬form.SameRoots form') (unshifted : ¬form.Shifted form')
    (unshifted' : ¬form'.Shifted form) :
    first.keyText world.files.directory ≠ second.keyText world.files.directory ∧
    (first.ToldApart second world.files.directory →
      (layout.sessionFile first world.files.directory).location ≠
          (layout.sessionFile second world.files.directory).location ∧
      (layout.stateDirectory first world.files.directory).location ≠
          (layout.stateDirectory second world.files.directory).location ∧
      ∀ other : World, (layout.veilOver second world.files other.files).WorldsAlike world other →
        (layout.veilOver second world.files other.files).Shows layout.root →
        KeepsOff layout second (clearPair layout first) world other ∧
        ∀ (toolchain : Toolchain) (classpath : List Path),
          (layout.veilOver second world.files other.files).Admits first classpath →
          (layout.veilOver second world.files other.files).Recalls layout first →
          toolchain.Disregards (layout.veilOver second world.files other.files) first.output
            (PathSet.ofList classpath) →
          KeepsOff layout second (compilePair layout toolchain first classpath) world other) := by
  refine ⟨RootPair.keyText_ne (Path.isAbsolute_directory _) formed formed' different unshifted
    unshifted', fun apart => ⟨?_, ?_, fun other alike root => ?_⟩⟩
  · exact layout.location_sessionFile_ne apart
  · exact layout.location_stateDirectory_ne apart
  · have stores := CacheLayout.stores_veilOver apart root
    exact ⟨inStep_clearPair stores _ _ alike, fun toolchain classpath admits recalls overlooks =>
      compilePair_veiled stores admits recalls overlooks rfl alike⟩

/-! ## A neighbour that was built before -/

section Neighbour

theorem disregards_stamping {outputRoot : Path} (clears : veil.Clears outputRoot)
    (classpath : PathSet) : stamping.Disregards veil outputRoot classpath where
  compiles _ _ _ _ :=
    InStep.bind (inStep_changeFiles (inStep_write (clears.join (by decide)).shows [])) fun _ =>
      InStep.pure 0
  declares _ _ _ _ _ := rfl
  names _ _ name declares := by
    rw [← Except.ok.inj declares]
    decide
  surfaces _ _ _ _ _ := rfl
  whole := by decide

def neighbour : RootPair := ⟨⟨"lib"⟩, ⟨"classes"⟩⟩

/-- One source, and a cache in which nothing is stored. -/
def vacant : World :=
  Project.worldOf (Project.sourceEntries [("A", Project.firstContent)] ++
    [(["cache"], .directory), (["cache", "filesystem"], .directory),
      (["cache", "incremental"], .directory)])

/-- A session of the neighbour is stored that cannot be read. -/
def occupied : World :=
  { vacant with
    files := vacant.files.setEntry ["cache", "incremental", neighbour.key ⟨"/"⟩ ++ ".bin"]
      (.file [0]) }

abbrev overNeighbour : Veil :=
  CacheLayout.veilOver ⟨⟨"cache"⟩⟩ neighbour vacant.files occupied.files

theorem worldsAlike_occupied : overNeighbour.WorldsAlike vacant occupied where
  files :=
    have wellFormed : vacant.files.WellFormed := by decide +kernel
    have hides : overNeighbour.Hides ["cache", "incremental", neighbour.key ⟨"/"⟩ ++ ".bin"] := by
      decide +kernel
    { host := rfl
      host' := rfl
      home' := rfl
      readable := fun _ _ => rfl
      refusals := rfl
      named := wellFormed.names
      homeNamed := fun _ none => absurd none List.not_mem_nil
      shown := fun place shown => by
        rw [occupied, getElem?_setEntry, if_neg]
        rintro rfl
        exact shown hides
      stays := fun _ _ => rfl
      stays' := fun _ _ => rfl }
  notices := rfl

theorem admits_vacant : overNeighbour.Admits Project.growing.pair [] :=
  ⟨by decide +kernel, by decide +kernel, fun _ none => absurd none List.not_mem_nil⟩

theorem recalls_vacant : overNeighbour.Recalls Project.growing.layout Project.growing.pair where
  digests digests stored := by
    have nothing : stored? digestsReader vacant.files
        ((Project.growing.layout.stateDirectory Project.growing.pair vacant.files.directory).join
          sourcesFile) = none := by
      decide +kernel
    cases nothing.symm.trans stored
  session session loads := by
    have nothing : (Session.load vacant.files (Project.growing.layout.sessionFile
        Project.growing.pair vacant.files.directory)).toOption = none := by
      decide +kernel
    cases nothing.symm.trans (congrArg Except.toOption loads)

theorem vacant_ends :
    (outcome? (compilePair Project.growing.layout stamping Project.growing.pair []) vacant).map
        (·.1) = some 0 ∧
      (outcome? (clearPair Project.growing.layout Project.growing.pair) vacant).map (·.1) =
        some () := by
  decide +kernel

theorem pairs_keep_to_themselves_occupied :
    ∃ next next' cleared cleared',
      compilePair Project.growing.layout stamping Project.growing.pair [] vacant = .ok 0 next ∧
      compilePair Project.growing.layout stamping Project.growing.pair [] occupied = .ok 0 next' ∧
      clearPair Project.growing.layout Project.growing.pair vacant = .ok () cleared ∧
      clearPair Project.growing.layout Project.growing.pair occupied = .ok () cleared' ∧
      overNeighbour.WorldsAlike next next' ∧ overNeighbour.WorldsAlike cleared cleared' := by
  have formed : Project.growing.pair.absolute? vacant.files.directory =
      some ⟨⟨"/src"⟩, ⟨"/out"⟩⟩ := by
    decide +kernel
  have formed' : neighbour.absolute? vacant.files.directory =
      some ⟨⟨"/lib"⟩, ⟨"/classes"⟩⟩ := by
    decide +kernel
  obtain ⟨-, apart⟩ := pairs_keep_to_themselves Project.growing.layout vacant formed formed'
    (by decide +kernel) (by decide +kernel) (by decide +kernel)
  obtain ⟨-, -, beside⟩ := apart (by decide +kernel)
  obtain ⟨clears, compiles⟩ := beside occupied worldsAlike_occupied (by decide +kernel)
  obtain ⟨builds, empties⟩ := vacant_ends
  obtain ⟨⟨code, next⟩, ends, zero⟩ := Option.map_eq_some_iff.mp builds
  obtain rfl : code = 0 := zero
  obtain ⟨⟨_, cleared⟩, ends', -⟩ := Option.map_eq_some_iff.mp empties
  have returns := eq_ok_of_outcome? ends
  have returns' := eq_ok_of_outcome? ends'
  obtain ⟨next', same, alike⟩ := (compiles stamping [] admits_vacant recalls_vacant
    (disregards_stamping admits_vacant.output _)).exists_of_ok returns
  obtain ⟨cleared', same', alike'⟩ := clears.exists_of_ok returns'
  exact ⟨next, next', cleared, cleared', returns, same, returns', same', alike, alike'⟩

end Neighbour

end CommandLine

end AbiBuild
