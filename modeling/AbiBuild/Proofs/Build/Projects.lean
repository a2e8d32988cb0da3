import AbiBuild.Proofs.Build.Updates
import AbiBuild.Proofs.Changes.Detector

/-!
# What is remembered between builds

From one build to the next the digests of the sources and the session are kept, and they belong to
the same sources; or the digests are gone, and the next build starts over.
-/

namespace AbiBuild

open Files FileSystem Changes

/-- Sources below one root with all that is kept about them.  The contents that ever occur are told
apart by their digests. -/
structure Project where
  language : Language
  layout : CacheLayout
  pair : RootPair
  sourceExtension : String
  Occurs : Bytes → Prop
  apart : ∀ first second, Occurs first → Occurs second →
    Digest.Xxh3.digest first = Digest.Xxh3.digest second → first = second

namespace Project

variable (project : Project)

/-- Where the digests of the sources are kept. -/
def stateDirectory (files : FileSystem) : Path :=
  project.layout.digestRoot.join (project.pair.key files.directory)

def sessionFile (files : FileSystem) : Path :=
  project.layout.sessionFile project.pair files.directory

/-- The path leads to a source of the project. -/
abbrev IsSource (files : FileSystem) (path : Path) (content : Bytes) : Prop :=
  Changes.IsSource files project.pair.source project.sourceExtension path content

structure Fits (files : FileSystem) : Prop where
  apart : ∀ path other content otherContent first second, project.IsSource files path content →
    project.IsSource files other otherContent → project.language.surface? content = some first →
    project.language.surface? otherContent = some second →
    first.1.className = second.1.className → path = other
  names : ∀ path content surface, project.IsSource files path content →
    project.language.surface? content = some surface → IsTypeName surface.1.className

def Forgotten (files : FileSystem) : Prop :=
  ∀ name octets, IsName name → files.read ((project.stateDirectory files).join name) ≠ .ok octets

structure Remembers (before : List (String × Bytes)) (files : FileSystem) : Prop where
  located : Located project.pair.source project.sourceExtension before
  occurring : ∀ source ∈ before, project.Occurs source.2
  digests : stored? digestsReader files ((project.stateDirectory files).join sourcesFile) =
    some (digestsOf before)
  recalls : Build.Recalls project.language project.layout project.pair files.directory before files

/-- The files are in order, the state can be read, and what is remembered of the sources holds.  Of the
outputs `known` may be known besides. -/
structure Kept (known : List (String × Bytes) → FileSystem → Prop) (files : FileSystem) : Prop where
  wellFormed : files.WellFormed
  legible : files.LegibleBelow project.layout.root
  disjoint : Disjoint project.layout project.pair files
  memory : project.Forgotten files ∨ ∃ before, project.Remembers before files ∧ known before files

structure RetainsState (before after : FileSystem) : Prop where
  host : after.host = before.host
  wellFormed : before.WellFormed → after.WellFormed
  session : Spares (project.sessionFile before) before after
  digests : Keeps (project.stateDirectory before) before after ∨
    Bare (project.stateDirectory before) after

structure Retains (before after : FileSystem) : Prop extends
    project.RetainsState before after where
  sources : Keeps project.pair.source before after

variable {project}

theorem stateDirectory_eq {before after : FileSystem}
    (same : after.host = before.host) :
    project.stateDirectory after = project.stateDirectory before := by
  rw [stateDirectory, stateDirectory, directory_congr same]

theorem sessionFile_eq {before after : FileSystem}
    (same : after.host = before.host) :
    project.sessionFile after = project.sessionFile before := by
  rw [sessionFile, sessionFile, directory_congr same]

section Plain

variable (plain : project.layout.root.Plain)
include plain

theorem below_stateDirectory (files : FileSystem) :
    Below project.layout.digestRoot (project.stateDirectory files) :=
  CacheLayout.below_stateDirectory plain project.pair files.directory

theorem below_sessionFile (files : FileSystem) :
    Below project.layout.sessionRoot (project.sessionFile files) :=
  CacheLayout.below_sessionFile plain project.pair files.directory

end Plain

/-! ## Sources -/

theorem Fits.sound {files : FileSystem} {contents : List (String × Bytes)}
    (fits : project.Fits files)
    (lists : Lists files project.pair.source project.sourceExtension contents) :
    Sound (project.language.surfaces contents) where
  apart path other first second hfirst hsecond same := by
    obtain ⟨content, listed, found⟩ := (Language.surfaces_eq_some lists.distinct _ _).mp hfirst
    obtain ⟨otherContent, listedOther, foundOther⟩ :=
      (Language.surfaces_eq_some lists.distinct _ _).mp hsecond
    exact fits.apart _ _ _ _ _ _ ((lists.member _ _).mp listed) ((lists.member _ _).mp listedOther)
      found foundOther same
  names path surface found := by
    obtain ⟨content, listed, found⟩ := (Language.surfaces_eq_some lists.distinct _ _).mp found
    exact fits.names _ _ _ ((lists.member _ _).mp listed) found

theorem fits_of_lists {files : FileSystem} {contents : List (String × Bytes)}
    (lists : Lists files project.pair.source project.sourceExtension contents)
    (apart : ∀ first ∈ contents, ∀ second ∈ contents,
      ∀ name ∈ project.language.typeName? first.2,
        project.language.typeName? second.2 = some name → first.1 = second.1)
    (names : ∀ source ∈ contents, ∀ name ∈ project.language.typeName? source.2, IsTypeName name) :
    project.Fits files where
  apart path other content otherContent first second hfirst hsecond found foundOther same := by
    have texts := apart _ ((lists.member _ _).mpr hfirst) _ ((lists.member _ _).mpr hsecond)
      first.1.className (by rw [Language.typeName?, found]; rfl)
      (by rw [Language.typeName?, foundOther, same]; rfl)
    cases path
    cases other
    exact congrArg Files.Path.mk texts
  names path content surface source found :=
    names _ ((lists.member _ _).mpr source) _ (by rw [Language.typeName?, found]; rfl)

theorem Fits.keeps {before after : FileSystem} (fits : project.Fits before)
    (keeps : Keeps project.pair.source before after) : project.Fits after where
  apart path other content otherContent first second hfirst hsecond := by
    rw [IsSource, IsSource.congr keeps] at hfirst hsecond
    exact fits.apart path other content otherContent first second hfirst hsecond
  names path content surface source := by
    rw [IsSource, IsSource.congr keeps] at source
    exact fits.names path content surface source

/-! ## Memory -/

theorem forgotten_of_bare {files : FileSystem} (wellFormed : files.WellFormed)
    (plain : project.layout.root.Plain) (bare : Bare (project.stateDirectory files) files) :
    project.Forgotten files := by
  intro name octets isName reads
  have below : Below project.layout.digestRoot (project.stateDirectory files) :=
    below_stateDirectory plain files
  rw [read_eq_ok wellFormed (below.plain.join isName), placeFor_join below.plain isName.whole]
    at reads
  rw [bare _ (List.prefix_append _ _) (by simp)] at reads
  cases reads.2.1

theorem Forgotten.stored?_eq_none {α : Type} {reader : MessagePack.Reader α} {files : FileSystem}
    (forgotten : project.Forgotten files) {name : String} (isName : IsName name) :
    stored? reader files ((project.stateDirectory files).join name) = none := by
  rw [stored?]
  cases reads : files.read ((project.stateDirectory files).join name) with
  | error fault => rfl
  | ok octets => exact absurd reads (forgotten name octets isName)

theorem read_eq_ok_of_keeps {before after : FileSystem} {root path : Path} {octets : Bytes}
    (wellFormed : before.WellFormed) (keeps : Keeps root before after) (below : Below root path) :
    after.read path = .ok octets ↔ before.read path = .ok octets := by
  rw [read_eq_ok (keeps.wellFormed wellFormed) below.plain, read_eq_ok wellFormed below.plain,
    keeps.getElem? below, placeFor_congr keeps.host, keeps.host]

theorem stored?_of_keeps {α : Type} (reader : MessagePack.Reader α) {before after : FileSystem}
    {root path : Path} (wellFormed : before.WellFormed) (keeps : Keeps root before after)
    (below : Below root path) : stored? reader after path = stored? reader before path := by
  have same : (after.read path).toOption = (before.read path).toOption := by
    apply Option.ext
    intro octets
    have reads : after.read path = .ok octets ↔ before.read path = .ok octets :=
      read_eq_ok_of_keeps wellFormed keeps below
    cases hafter : after.read path <;> cases hbefore : before.read path <;>
      simp_all [Except.toOption]
  rw [stored?, stored?, same]

namespace RetainsState

variable {before after : FileSystem} (retains : project.RetainsState before after)
include retains

theorem digests_or_forgotten (wellFormed : before.WellFormed)
    (plain : project.layout.root.Plain) :
    Keeps (project.stateDirectory before) before after ∨ project.Forgotten after := by
  refine retains.digests.imp_right fun bare => ?_
  refine forgotten_of_bare (retains.wellFormed wellFormed) plain ?_
  rwa [stateDirectory_eq retains.host]

theorem forgotten (wellFormed : before.WellFormed) (plain : project.layout.root.Plain)
    (forgotten : project.Forgotten before) : project.Forgotten after := by
  have below : Below project.layout.digestRoot (project.stateDirectory before) :=
    below_stateDirectory plain before
  refine (retains.digests_or_forgotten wellFormed plain).elim (fun keeps => ?_) id
  intro name octets isName reads
  rw [stateDirectory_eq retains.host,
    read_eq_ok_of_keeps wellFormed keeps ((Below.refl below.plain).join isName)] at reads
  exact forgotten name octets isName reads

theorem read_session (wellFormed : before.WellFormed) (plain : project.layout.root.Plain)
    {octets : Bytes} (reads : after.read (project.sessionFile after) = .ok octets) :
    before.read (project.sessionFile before) = .ok octets := by
  have below : Below project.layout.sessionRoot (project.sessionFile before) :=
    below_sessionFile plain before
  rw [sessionFile_eq retains.host] at reads
  exact retains.session.read wellFormed (retains.wellFormed wellFormed) below.plain reads

theorem remembers (wellFormed : before.WellFormed) (plain : project.layout.root.Plain)
    {contents : List (String × Bytes)} (remembers : project.Remembers contents before) :
    project.Forgotten after ∨ project.Remembers contents after := by
  have below : Below project.layout.digestRoot (project.stateDirectory before) :=
    below_stateDirectory plain before
  refine (retains.digests_or_forgotten wellFormed plain).symm.imp_right fun keeps => ?_
  refine ⟨remembers.located, remembers.occurring, ?_, remembers.recalls.nonempty,
    remembers.recalls.covers, remembers.recalls.names, ?_⟩
  · have isName : IsName sourcesFile := by constructor <;> decide
    rw [stateDirectory_eq retains.host,
      stored?_of_keeps _ wellFormed keeps ((Below.refl below.plain).join isName)]
    exact remembers.digests
  · exact fun octets reads =>
      remembers.recalls.session octets (retains.read_session wellFormed plain reads)

end RetainsState

/-- What is remembered outlasts changes elsewhere.  What is known of the outputs has to outlast them
too, unless the digests are gone. -/
theorem Kept.retainsState {known : List (String × Bytes) → FileSystem → Prop}
    {before after : FileSystem} (kept : project.Kept known before)
    (retains : project.RetainsState before after)
    (still : project.Forgotten after ∨ ∀ contents, known contents before → known contents after) :
    project.Kept known after where
  wellFormed := retains.wellFormed kept.wellFormed
  legible := kept.legible.congr retains.host
  disjoint := kept.disjoint.congr retains.host
  memory := by
    have plain := kept.disjoint.plainRoot
    rcases still with gone | still
    · exact .inl gone
    · rcases kept.memory with forgotten | ⟨contents, remembers, knows⟩
      · exact .inl (retains.forgotten kept.wellFormed plain forgotten)
      · exact (retains.remembers kept.wellFormed plain remembers).imp_right fun remembers =>
          ⟨contents, remembers, still contents knows⟩

instance : Accumulates project.RetainsState where
  refl files := ⟨rfl, id, Accumulates.refl files, .inl (Accumulates.refl files)⟩
  trans {first second third} before after := by
    have same := before.host
    refine ⟨after.host.trans same, after.wellFormed ∘ before.wellFormed, ?_, ?_⟩
    · have session := after.session
      rw [sessionFile_eq same] at session
      exact Accumulates.trans before.session session
    · have digests := after.digests
      rw [stateDirectory_eq same] at digests
      rcases digests with keeps | bare
      · rcases before.digests with keepsBefore | bareBefore
        · exact .inl (Accumulates.trans keepsBefore keeps)
        · refine .inr fun place inside further => ?_
          rw [placeFor_congr keeps.host] at inside further
          rw [keeps.same place inside, bareBefore place inside further]
      · exact .inr bare

instance : Accumulates project.Retains where
  refl files := ⟨Accumulates.refl files, Accumulates.refl files⟩
  trans before after := ⟨Accumulates.trans before.toRetainsState after.toRetainsState,
    Accumulates.trans before.sources after.sources⟩

theorem retains_of_keeps {before after : FileSystem}
    (sources : Keeps project.pair.source before after)
    (session : Spares (project.sessionFile before) before after)
    (digests : Keeps (project.stateDirectory before) before after ∨
      Bare (project.stateDirectory before) after) : project.Retains before after :=
  ⟨⟨sources.host, sources.wellFormed, session, digests⟩, sources⟩

theorem retains_of_quiet {before after : FileSystem} (plain : project.layout.root.Plain)
    (quiet : Quiet project.layout project.pair before.directory before after) :
    project.Retains before after :=
  retains_of_keeps quiet.sources quiet.session
    (.inl (quiet.digests.mono (below_stateDirectory plain before)))

theorem retainsState_of_keeps {before after : FileSystem} (plain : project.layout.root.Plain)
    (keeps : Keeps project.layout.root before after) : project.RetainsState before after where
  host := keeps.host
  wellFormed := keeps.wellFormed
  session := (keeps.mono (CacheLayout.below_sessionRoot plain)).spares
    (below_sessionFile plain before)
  digests := .inl ((keeps.mono (CacheLayout.below_digestRoot plain)).mono
    (below_stateDirectory plain before))

end Project

end AbiBuild
