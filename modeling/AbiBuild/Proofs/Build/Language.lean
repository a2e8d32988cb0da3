import AbiBuild.Build.Compile
import AbiBuild.Proofs.Build.Outputs
import AbiBuild.Proofs.Changes.States
import AbiBuild.Proofs.Session.Reflects

/-!
# What a build may expect of a toolchain

A language says what surface a source has and which octets are a unit of it, both by its content
alone.  A toolchain serves a language when its three parts agree with that.
-/

namespace AbiBuild

open Files FileSystem Changes

structure Language where
  /-- The surface of a source with this content, if it can be compiled. -/
  surface? : Bytes → Option PartitionedAbi
  IsUnit : (content unit : Bytes) → Prop

namespace Language

variable {language : Language} {contents : List (String × Bytes)}

def surfaces (language : Language) (contents : List (String × Bytes)) (path : Path) :
    Option PartitionedAbi :=
  (Std.ExtTreeMap.ofList contents compare)[path.text]?.bind language.surface?

theorem surfaces_eq_some
    (distinct : contents.Pairwise fun first second => first.1 ≠ second.1) (path : Path)
    (surface : PartitionedAbi) : language.surfaces contents path = some surface ↔
      ∃ content, (path.text, content) ∈ contents ∧ language.surface? content = some surface := by
  simp only [surfaces, Option.bind_eq_some_iff, getElem?_ofList distinct]

theorem surfaces_of_mem (distinct : contents.Pairwise fun first second => first.1 ≠ second.1)
    {path : Path} {content : Bytes} (listed : (path.text, content) ∈ contents) :
    language.surfaces contents path = language.surface? content := by
  rw [surfaces, (getElem?_ofList distinct path.text content).mpr listed]
  rfl

def typeName? (language : Language) (content : Bytes) : Option String :=
  (language.surface? content).map (·.1.className)

def Covers (language : Language) (contents : List (String × Bytes)) : Prop :=
  ∀ source ∈ contents, (language.surface? source.2).isSome

end Language

/-- The types can have their units beside each other: they are different, and their names lead
nowhere else. -/
structure Sound (surfaces : Path → Option PartitionedAbi) : Prop where
  apart : Session.TypesApart surfaces
  names : ∀ path surface, surfaces path = some surface → IsTypeName surface.1.className

def HasUnits (language : Language) (outputRoot : Path) (extension : String) (sources : List Path)
    (before after : FileSystem) : Prop :=
  ∀ path ∈ sources, ∀ content surface, before.read path = .ok content →
    language.surface? content = some surface → ∃ unit,
      after.read (Outputs.unitPath outputRoot surface.1.className extension) = .ok unit ∧
        language.IsUnit content unit

def surfacesAt (language : Language) (files : FileSystem) (sources : List Path) (path : Path) :
    Option PartitionedAbi :=
  if path ∈ sources then (files.read path).toOption.bind language.surface? else none

/-- A toolchain serves a language.  Its compiler leaves alone what is not to be touched, and when it
succeeds on sources with sound types it has made a unit of each. -/
structure Toolchain.Serves (toolchain : Toolchain) (language : Language) (outputRoot : Path)
    (untouched : List Path) : Prop where
  extension : '/' ∉ toolchain.outputExtension.toList
  resolves : ∀ files path name, toolchain.typeDeclaredBy files path = .ok name →
    ∃ content surface, files.read path = .ok content ∧
      language.surface? content = some surface ∧ surface.1.className = name
  reads : ∀ files path abi, toolchain.surfaceOf files path = .ok abi →
    ∃ unit, files.read path = .ok unit ∧ ∀ content surface, language.IsUnit content unit →
      language.surface? content = some surface → abi.Shows surface.1
  compiles : ∀ (request : CompileRequest) (world : World), request.outputRoot = outputRoot →
    world.files.WellFormed → Ends (toolchain.compile request) world
      (fun exitCode next => (∀ root ∈ untouched, Keeps root world.files next.files) ∧
        (exitCode = 0 → Sound (surfacesAt language world.files request.sources.toList) →
          HasUnits language outputRoot toolchain.outputExtension request.sources.toList
            world.files next.files))
      (fun _ next => ∀ root ∈ untouched, Keeps root world.files next.files)

structure Toolchain.SparesOthers (toolchain : Toolchain) (language : Language)
    (outputRoot : Path) : Prop where
  outer : '$' ∉ toolchain.outputExtension.toList
  compiles : ∀ (request : CompileRequest) (world : World), request.outputRoot = outputRoot →
    world.files.WellFormed →
    Sound (surfacesAt language world.files request.sources.toList) →
    ∀ name, IsTypeName name → '$' ∉ name.toList →
    (∀ path surface, surfacesAt language world.files request.sources.toList path = some surface →
      surface.1.className ≠ name) →
    ∀ unit, world.files.read
      (Outputs.unitPath outputRoot name toolchain.outputExtension) = .ok unit →
    Ends (toolchain.compile request) world
      (fun exitCode next => exitCode = 0 → next.files.read
        (Outputs.unitPath outputRoot name toolchain.outputExtension) = .ok unit)
      (fun _ _ => True)

/-! ## Listed sources -/

structure Located (root : Path) (extension : String) (contents : List (String × Bytes)) : Prop where
  distinct : contents.Pairwise fun first second => first.1 ≠ second.1
  below : ∀ (path : Path) content, (path.text, content) ∈ contents → Below root path
  extension : ∀ (path : Path) content, (path.text, content) ∈ contents →
    path.extension? = some extension

namespace Located

variable {root : Path} {extension : String} {contents : List (String × Bytes)}

theorem exists_of_isSome {language : Language} (located : Located root extension contents)
    {path : Path} (found : (language.surfaces contents path).isSome) :
    ∃ content, (path.text, content) ∈ contents := by
  obtain ⟨surface, found⟩ := Option.isSome_iff_exists.mp found
  obtain ⟨content, listed, -⟩ := (Language.surfaces_eq_some located.distinct path surface).mp found
  exact ⟨content, listed⟩

theorem plain (located : Located root extension contents) {path : Path}
    (listed : ∃ content, (path.text, content) ∈ contents) : path.Plain := by
  obtain ⟨content, member⟩ := listed
  exact (located.below path content member).plain

theorem mem_toList_ofList (located : Located root extension contents) {paths : List Path}
    (listed : ∀ path, path ∈ paths ↔ ∃ content, (path.text, content) ∈ contents) (path : Path) :
    path ∈ (PathSet.ofList paths).toList ↔ ∃ content, (path.text, content) ∈ contents := by
  constructor
  · exact fun member => (listed path).mp (PathSet.mem_of_mem_toList_ofList member)
  · intro found
    have member : path ∈ PathSet.ofList paths :=
      (PathSet.mem_ofList paths path).mpr ⟨path, (listed path).mpr found, rfl⟩
    obtain ⟨other, there, here⟩ := (PathSet.exists_mem_toList _ path).mp member
    have known := (listed other).mp (PathSet.mem_of_mem_toList_ofList there)
    rwa [(located.plain known).eq_of_location (located.plain found) here] at there

end Located

structure Lists (files : FileSystem) (root : Path) (extension : String)
    (contents : List (String × Bytes)) : Prop where
  distinct : contents.Pairwise fun first second => first.1 ≠ second.1
  member : ∀ (path : Path) (content : Bytes),
    (path.text, content) ∈ contents ↔ IsSource files root extension path content
  readable : ∀ (path : Path) (content : Bytes), (path.text, content) ∈ contents →
    files.host.unreadable[files.placeFor path]? = none

namespace Lists

variable {files : FileSystem} {root : Path} {extension : String} {contents : List (String × Bytes)}

theorem of_sourceContents (wellFormed : files.WellFormed) (plain : root.Plain)
    (lists : sourceContents files root extension = .ok contents) :
    Lists files root extension contents where
  distinct := pairwise_sourceContents wellFormed lists
  member := mem_sourceContents wellFormed plain lists
  readable _ _ := readable_of_mem_sourceContents wellFormed plain lists

theorem keeps {after : FileSystem} (lists : Lists files root extension contents)
    (keeps : Keeps root files after) : Lists after root extension contents where
  distinct := lists.distinct
  member path content := by rw [lists.member, IsSource.congr keeps]
  readable path content listed := by
    rw [keeps.host, placeFor_congr keeps.host]
    exact lists.readable path content listed

theorem located (lists : Lists files root extension contents) : Located root extension contents where
  distinct := lists.distinct
  below path content listed := ((lists.member path content).mp listed).below
  extension path content listed := ((lists.member path content).mp listed).extension

end Lists

end AbiBuild
