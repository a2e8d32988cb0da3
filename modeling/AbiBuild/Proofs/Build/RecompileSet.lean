import AbiBuild.Build.Compile
import AbiBuild.Proofs.Collections
import AbiBuild.Proofs.Dependency.Impact
import AbiBuild.Proofs.Session.Paired

/-!
# The sources to compile

An incremental build compiles what is new or changed and what can see a change, and nothing else.
-/

namespace AbiBuild

open Files

theorem SourceStates.mem_inState {sources : SourceStates} {states : List SourceState}
    {path : Path} : path ∈ sources.inState states ↔ ∃ state ∈ states, (path, state) ∈ sources.toList := by
  simp only [inState, List.mem_map, List.mem_filter, List.contains_iff_mem, Prod.exists]
  constructor
  · rintro ⟨found, state, ⟨listed, wanted⟩, rfl⟩
    exact ⟨state, wanted, listed⟩
  · rintro ⟨state, wanted, listed⟩
    exact ⟨path, state, ⟨listed, wanted⟩, rfl⟩

namespace Build

variable {session : Session} {toolchain : Toolchain} {files : FileSystem} {sources : SourceStates}

/-- The type that a listed source stands for: the one it declares, or the recorded one when nothing
changed.  A source that is gone stands for none. -/
def standsFor? (session : Session) (toolchain : Toolchain) (files : FileSystem)
    (entry : Path × SourceState) : Option String :=
  match entry.2 with
  | .added | .changed =>
    if files.pathExists entry.1 then (toolchain.typeDeclaredBy files entry.1).toOption else none
  | .notChanged => session.recordedType? entry.1
  | .removed => none

/-- A type whose surface may differ: one that a changed or missing source declared last, or one that
a changed source declares now. -/
def Differs (session : Session) (toolchain : Toolchain) (files : FileSystem)
    (sources : SourceStates) (name : String) : Prop :=
  ∃ entry ∈ sources.toList,
    (entry.2 = .changed ∨ entry.2 = .removed) ∧ session.recordedType? entry.1 = some name ∨
      entry.2 = .changed ∧ files.pathExists entry.1 ∧
        toolchain.typeDeclaredBy files entry.1 = .ok name

/-- What a build may rely on when it is told how the sources stand. -/
structure Consistent (session : Session) (toolchain : Toolchain) (files : FileSystem)
    (sources : SourceStates) : Prop where
  recorded : ∀ (name : String) (source : Path), session.classToSource[name]? = some source → source ∈ sources
  gone : ∀ path, (path, SourceState.removed) ∈ sources.toList → files.pathExists path = false
  apart : ∀ first ∈ sources.toList, ∀ second ∈ sources.toList, ∀ name,
    standsFor? session toolchain files first = some name →
      standsFor? session toolchain files second = some name → first = second

theorem mem_typesAround {path : Path} {names : Names}
    (succeeds : session.typesAround toolchain files path = .ok names) (name : String) :
    name ∈ names ↔ session.recordedType? path = some name ∨
      files.pathExists path ∧ toolchain.typeDeclaredBy files path = .ok name := by
  rw [Session.typesAround] at succeeds
  obtain ⟨declared, asked, listed⟩ := ite_bind_eq_ok.mp succeeds
  have gathered : name ∈ names ↔ session.recordedType? path = some name ∨ name ∈ declared := by
    dsimp only at listed
    split at listed
    next => cases listed
    next =>
      rw [← Except.ok.inj listed, Names.mem_ofList, List.mem_append, Option.mem_toList, or_comm]
  rw [gathered]
  cases present : files.pathExists path with
  | false =>
      rw [present, if_neg Bool.false_ne_true] at asked
      cases asked
      simp
  | true =>
      rw [present, if_pos rfl] at asked
      cases declares : toolchain.typeDeclaredBy files path with
      | error error =>
          rw [declares] at asked
          cases asked
      | ok type =>
          rw [declares] at asked
          cases asked
          simp [eq_comm]

theorem sourceOf_eq_ok {name : String} {source : Path} :
    session.sourceOf name = .ok source ↔ session.classToSource[name]? = some source := by
  rw [Session.sourceOf]
  cases session.classToSource[name]? <;> simp

/-- A source is affected when a class that is recorded for it depends on a type around the changed
source. -/
theorem mem_impactOf {path : Path} {affected : PathSet}
    (succeeds : session.impactOf toolchain files path = .ok affected) (source : Path) :
    source ∈ affected ↔ ∃ root name, ∃ owner : Path,
      (session.recordedType? path = some root ∨
        files.pathExists path ∧ toolchain.typeDeclaredBy files path = .ok root) ∧
      name ∈ session.graph.impact root ∧ session.classToSource[name]? = some owner ∧
      owner.location = source.location := by
  rw [Session.impactOf] at succeeds
  cases around : session.typesAround toolchain files path with
  | error error =>
      rw [around] at succeeds
      cases succeeds
  | ok names =>
      rw [around] at succeeds
      change (((names.toList.flatMap fun name => (session.graph.impact name).toList).mapM
        session.sourceOf) >>= fun sources => pure (PathSet.ofList sources)) = _ at succeeds
      cases owners : (names.toList.flatMap fun name => (session.graph.impact name).toList).mapM
          session.sourceOf with
      | error error =>
          rw [owners] at succeeds
          cases succeeds
      | ok found =>
          rw [owners] at succeeds
          rw [← Except.ok.inj succeeds, PathSet.mem_ofList]
          simp only [← mem_typesAround around]
          constructor
          · rintro ⟨owner, listed, here⟩
            obtain ⟨name, reached, belongs⟩ := exists_of_mem_results owners listed
            obtain ⟨root, known, impacted⟩ := List.mem_flatMap.mp reached
            rw [Std.ExtTreeSet.mem_toList] at known impacted
            exact ⟨root, name, owner, known, impacted, sourceOf_eq_ok.mp belongs, here⟩
          · rintro ⟨root, name, owner, known, impacted, belongs, here⟩
            have reached : name ∈ names.toList.flatMap fun name =>
                (session.graph.impact name).toList :=
              List.mem_flatMap.mpr ⟨root, Std.ExtTreeSet.mem_toList.mpr known,
                Std.ExtTreeSet.mem_toList.mpr impacted⟩
            obtain ⟨result, listed, found⟩ := exists_of_mem_values owners reached
            have same : owner = result := by
              rw [sourceOf_eq_ok.mpr belongs] at found
              exact Except.ok.inj found
            exact ⟨result, listed, same ▸ here⟩

theorem mem_reached {entry : Path × SourceState} {found : List Path}
    (succeeds : reached session toolchain files entry = .ok found) (source : Path) :
    (∃ path ∈ found, path.location = source.location) ↔
      (entry.2 = .added ∨ entry.2 = .changed) ∧ entry.1.location = source.location ∨
        (entry.2 = .changed ∨ entry.2 = .removed) ∧ ∃ affected,
          session.impactOf toolchain files entry.1 = .ok affected ∧ source ∈ affected := by
  obtain ⟨path, state⟩ := entry
  cases state with
  | notChanged =>
      obtain rfl := Except.ok.inj succeeds
      simp
  | added =>
      obtain rfl := Except.ok.inj succeeds
      simp
  | removed =>
      simp only [reached] at succeeds
      cases impacts : session.impactOf toolchain files path with
      | error error =>
          rw [impacts] at succeeds
          cases succeeds
      | ok affected =>
          rw [impacts] at succeeds
          rw [← Except.ok.inj succeeds, ← PathSet.exists_mem_toList]
          simp
  | changed =>
      simp only [reached] at succeeds
      cases impacts : session.impactOf toolchain files path with
      | error error =>
          rw [impacts] at succeeds
          cases succeeds
      | ok affected =>
          rw [impacts] at succeeds
          rw [← Except.ok.inj succeeds]
          simp [← PathSet.exists_mem_toList]

theorem impactOf_of_reached {entry : Path × SourceState} {found : List Path}
    (succeeds : reached session toolchain files entry = .ok found)
    (state : entry.2 = .changed ∨ entry.2 = .removed) :
    ∃ affected, session.impactOf toolchain files entry.1 = .ok affected := by
  obtain ⟨path, _⟩ := entry
  cases impacts : session.impactOf toolchain files path with
  | ok affected => exact ⟨affected, rfl⟩
  | error error =>
      rcases state with rfl | rfl <;> simp only [reached, impacts] at succeeds <;> cases succeeds

/-- The sources that have to be compiled: what is new or changed, and what depends on a type whose
surface may differ. -/
def MustCompile (session : Session) (toolchain : Toolchain) (files : FileSystem)
    (sources : SourceStates) (path : Path) : Prop :=
  sources[path]? = some .added ∨ sources[path]? = some .changed ∨
    sources[path]? = some .notChanged ∧ ∃ name root, session.recordedType? path = some name ∧
      session.graph.DependsAcross name root ∧ Differs session toolchain files sources root

theorem mem_impactOf_iff_dependsAcross (paired : session.Paired) (mirrored : session.graph.Mirrored)
    {path : Path} {affected : PathSet}
    (succeeds : session.impactOf toolchain files path = .ok affected) (source : Path) :
    source ∈ affected ↔ ∃ root name,
      (session.recordedType? path = some root ∨
        files.pathExists path ∧ toolchain.typeDeclaredBy files path = .ok root) ∧
      name ≠ root ∧ session.graph.DependsAcross name root ∧
        session.recordedType? source = some name := by
  rw [mem_impactOf succeeds]
  refine exists_congr fun root => exists_congr fun name => ?_
  simp only [mirrored.mem_impact_iff, exists_and_left, and_assoc]
  refine and_congr_right fun _ => and_congr_right fun _ => and_congr_right fun _ => ?_
  exact (paired _ _).symm

theorem Consistent.not_differs (consistent : Consistent session toolchain files sources)
    (paired : session.Paired) {path : Path} {name : String}
    (unchanged : sources[path]? = some .notChanged)
    (recorded : session.recordedType? path = some name) :
    ¬Differs session toolchain files sources name := by
  obtain ⟨other, listed, here⟩ := (PathMap.getElem?_eq_some_iff ..).mp unchanged
  have stands : standsFor? session toolchain files (other, .notChanged) = some name := by
    rw [standsFor?, Session.recordedType?, here]
    exact recorded
  rintro ⟨entry, listedOther, ⟨state, recordedOther⟩ | ⟨state, present, declared⟩⟩
  · have same := paired.location_eq recordedOther recorded
    have equal := PathMap.eq_of_mem_toList listedOther listed (same.trans here.symm)
    rw [equal] at state
    simp at state
  · have claims : standsFor? session toolchain files entry = some name := by
      simp only [standsFor?, state, if_pos present, declared]
      rfl
    have equal := consistent.apart entry listedOther _ listed name claims stands
    rw [equal] at state
    simp at state

theorem Consistent.isSome_of_recorded (consistent : Consistent session toolchain files sources)
    {name : String} {source : Path} (recorded : session.classToSource[name]? = some source) :
    ∃ state, sources[source]? = some state := by
  have member := consistent.recorded name source recorded
  rw [Std.ExtTreeMap.mem_iff_isSome_getElem?, Option.isSome_iff_exists] at member
  exact member

theorem Consistent.differs_of_around (consistent : Consistent session toolchain files sources)
    {entry : Path × SourceState} (known : entry ∈ sources.toList)
    (state : entry.2 = .changed ∨ entry.2 = .removed) {root : String}
    (around : session.recordedType? entry.1 = some root ∨
      files.pathExists entry.1 ∧ toolchain.typeDeclaredBy files entry.1 = .ok root) :
    Differs session toolchain files sources root := by
  obtain ⟨path, state'⟩ := entry
  rcases around with previous | ⟨present, now⟩
  · exact ⟨_, known, .inl ⟨state, previous⟩⟩
  · rcases state with changed | removed
    · exact ⟨_, known, .inr ⟨changed, present, now⟩⟩
    · obtain rfl : state' = .removed := removed
      rw [consistent.gone path known] at present
      cases present

theorem mem_filter_not_contains (set dropped : PathSet) (path : Path) :
    path ∈ set.filter (fun path => !dropped.contains path) ↔ path ∈ set ∧ path ∉ dropped := by
  rw [Std.ExtTreeSet.mem_filter]
  constructor
  · rintro ⟨member, kept⟩
    refine ⟨member, fun gone => ?_⟩
    have same := (Path.compare_eq_iff _ _).mp (Std.ExtTreeSet.compare_get_self member)
    rw [← PathSet.mem_congr same, Std.ExtTreeSet.mem_iff_contains] at gone
    rw [gone] at kept
    cases kept
  · rintro ⟨member, kept⟩
    refine ⟨member, ?_⟩
    have same := (Path.compare_eq_iff _ _).mp (Std.ExtTreeSet.compare_get_self member)
    rw [← PathSet.mem_congr same, Std.ExtTreeSet.mem_iff_contains, Bool.not_eq_true] at kept
    rw [kept]
    rfl

private theorem exists_mem_found {found : List (List Path)}
    (paired : session.Paired) (mirrored : session.graph.Mirrored)
    (succeeds : sources.toList.mapM (reached session toolchain files) = .ok found) (path : Path) :
    (∃ other ∈ found.flatten, other.location = path.location) ↔
      sources[path]? = some .added ∨ sources[path]? = some .changed ∨
        ∃ name root, session.recordedType? path = some name ∧ name ≠ root ∧
          session.graph.DependsAcross name root ∧
          ∃ entry ∈ sources.toList, (entry.2 = .changed ∨ entry.2 = .removed) ∧
            (session.recordedType? entry.1 = some root ∨
              files.pathExists entry.1 ∧ toolchain.typeDeclaredBy files entry.1 = .ok root) := by
  have each : (∃ other ∈ found.flatten, other.location = path.location) ↔
      ∃ entry ∈ sources.toList, ∃ paths, reached session toolchain files entry = .ok paths ∧
        ∃ other ∈ paths, other.location = path.location := by
    constructor
    · rintro ⟨other, member, here⟩
      obtain ⟨paths, listed, member⟩ := List.mem_flatten.mp member
      obtain ⟨entry, known, result⟩ := exists_of_mem_results succeeds listed
      exact ⟨entry, known, paths, result, other, member, here⟩
    · rintro ⟨entry, known, paths, result, other, member, here⟩
      obtain ⟨paths', listed, result'⟩ := exists_of_mem_values succeeds known
      rw [result] at result'
      obtain rfl := Except.ok.inj result'
      exact ⟨other, List.mem_flatten.mpr ⟨paths, listed, member⟩, here⟩
  rw [each]
  constructor
  · rintro ⟨⟨source, state⟩, known, paths, result, contained⟩
    rcases (mem_reached result path).mp contained with ⟨state, here⟩ | ⟨state, affected, impacts, member⟩
    · rcases state with rfl | rfl
      · exact .inl ((PathMap.getElem?_eq_some_iff ..).mpr ⟨source, known, here⟩)
      · exact .inr (.inl ((PathMap.getElem?_eq_some_iff ..).mpr ⟨source, known, here⟩))
    · obtain ⟨root, name, around, apart, depends, recorded⟩ :=
        (mem_impactOf_iff_dependsAcross paired mirrored impacts path).mp member
      exact .inr (.inr ⟨name, root, recorded, apart, depends, _, known, state, around⟩)
  · rintro (added | changed | ⟨name, root, recorded, apart, depends, entry, known, state, around⟩)
    · obtain ⟨source, known, here⟩ := (PathMap.getElem?_eq_some_iff ..).mp added
      obtain ⟨paths, -, result⟩ := exists_of_mem_values succeeds known
      exact ⟨_, known, paths, result, (mem_reached result path).mpr (.inl ⟨.inl rfl, here⟩)⟩
    · obtain ⟨source, known, here⟩ := (PathMap.getElem?_eq_some_iff ..).mp changed
      obtain ⟨paths, -, result⟩ := exists_of_mem_values succeeds known
      exact ⟨_, known, paths, result, (mem_reached result path).mpr (.inl ⟨.inr rfl, here⟩)⟩
    · obtain ⟨paths, -, result⟩ := exists_of_mem_values succeeds known
      obtain ⟨affected, impacts⟩ := impactOf_of_reached result state
      refine ⟨entry, known, paths, result, (mem_reached result path).mpr (.inr ⟨state, affected,
        impacts, ?_⟩)⟩
      exact (mem_impactOf_iff_dependsAcross paired mirrored impacts path).mpr
        ⟨root, name, around, apart, depends, recorded⟩

theorem mem_recompileSet (paired : session.Paired) (mirrored : session.graph.Mirrored)
    (consistent : Consistent session toolchain files sources) {set : PathSet}
    (succeeds : recompileSet session toolchain files sources = .ok set) (path : Path) :
    path ∈ set ↔ MustCompile session toolchain files sources path := by
  rw [recompileSet] at succeeds
  cases each : sources.toList.mapM (reached session toolchain files) with
  | error error =>
      rw [each] at succeeds
      cases succeeds
  | ok found =>
      rw [each] at succeeds
      rw [← Except.ok.inj succeeds, mem_filter_not_contains, PathSet.mem_ofList,
        PathSet.mem_ofList, exists_mem_found paired mirrored each]
      have missing : (∃ other ∈ sources.inState [.removed], other.location = path.location) ↔
          sources[path]? = some .removed := by
        rw [PathMap.getElem?_eq_some_iff]
        simp [SourceStates.mem_inState]
      rw [missing, MustCompile]
      constructor
      · rintro ⟨added | changed | ⟨name, root, recorded, -, depends, entry, known, state, around⟩, kept⟩
        · exact .inl added
        · exact .inr (.inl changed)
        · obtain ⟨owner, owned, here⟩ := (paired _ _).mp recorded
          obtain ⟨state', listed⟩ := consistent.isSome_of_recorded owned
          rw [PathMap.getElem?_congr sources here] at listed
          cases state' with
          | added => exact .inl listed
          | changed => exact .inr (.inl listed)
          | removed => exact absurd listed kept
          | notChanged =>
              exact .inr (.inr ⟨listed, name, root, recorded, depends,
                consistent.differs_of_around known state around⟩)
      · rintro (added | changed | ⟨unchanged, name, root, recorded, depends, differs⟩)
        · exact ⟨.inl added, by simp [added]⟩
        · exact ⟨.inr (.inl changed), by simp [changed]⟩
        · refine ⟨.inr (.inr ⟨name, root, recorded, ?_, depends, ?_⟩), by simp [unchanged]⟩
          · rintro rfl
            exact consistent.not_differs paired unchanged recorded differs
          · obtain ⟨entry, known, ⟨state, previous⟩ | ⟨state, now⟩⟩ := differs
            · exact ⟨entry, known, state, .inl previous⟩
            · exact ⟨entry, known, .inl state, .inr now⟩

theorem known_of_mem_recompileSet {set : PathSet}
    (succeeds : recompileSet session toolchain files sources = .ok set) {path : Path}
    (listed : path ∈ set.toList) :
    ((path, .added) ∈ sources.toList ∨ (path, .changed) ∈ sources.toList ∨
        ∃ name : String, session.classToSource[name]? = some path) ∧
      (path, .removed) ∉ sources.toList := by
  obtain ⟨found, each, rest⟩ := bind_eq_ok.mp succeeds
  obtain rfl := Except.ok.inj rest
  rw [Std.ExtTreeSet.toList_filter, List.mem_filter] at listed
  constructor
  · obtain ⟨paths, member, inside⟩ :=
      List.mem_flatten.mp (PathSet.mem_of_mem_toList_ofList listed.1)
    obtain ⟨⟨source, state⟩, known, result⟩ := exists_of_mem_results each member
    have affected : ∀ {impact : PathSet}, session.impactOf toolchain files source = .ok impact →
        path ∈ impact.toList → ∃ name : String, session.classToSource[name]? = some path := by
      intro impact impacts member
      obtain ⟨names, -, rest⟩ := bind_eq_ok.mp impacts
      obtain ⟨owners, owned, rest⟩ := bind_eq_ok.mp rest
      obtain rfl := Except.ok.inj rest
      obtain ⟨name, -, belongs⟩ :=
        exists_of_mem_results owned (PathSet.mem_of_mem_toList_ofList member)
      exact ⟨name, sourceOf_eq_ok.mp belongs⟩
    cases state with
    | notChanged =>
        obtain rfl := Except.ok.inj result
        cases inside
    | added =>
        obtain rfl := Except.ok.inj result
        rw [List.mem_singleton.mp inside]
        exact .inl known
    | removed =>
        simp only [reached] at result
        cases impacts : session.impactOf toolchain files source with
        | error error =>
            rw [impacts] at result
            cases result
        | ok impact =>
            rw [impacts] at result
            obtain rfl := Except.ok.inj result
            exact .inr (.inr (affected impacts inside))
    | changed =>
        obtain ⟨impact, impacts, rest⟩ := bind_eq_ok.mp result
        obtain rfl := Except.ok.inj rest
        rcases List.mem_cons.mp inside with rfl | inside
        · exact .inr (.inl known)
        · exact .inr (.inr (affected impacts inside))
  · intro removed
    have gone : path ∈ PathSet.ofList (sources.inState [.removed]) :=
      (PathSet.mem_ofList _ _).mpr ⟨path, SourceStates.mem_inState.mpr ⟨.removed, by simp, removed⟩,
        rfl⟩
    rw [Std.ExtTreeSet.mem_iff_contains] at gone
    simp [gone] at listed

end Build

end AbiBuild
