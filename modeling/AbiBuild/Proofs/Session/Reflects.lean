import AbiBuild.Proofs.Dependency.Reached
import AbiBuild.Proofs.Session.Cache

/-!
# Sessions that reflect their sources

A session reflects sources when it knows exactly their types and exactly what these mention.  Taking
in a batch keeps that up, provided that no source outside the batch mentions a type that is lost.
-/

namespace AbiBuild

open Files Dependency

/-- What a reader makes of a unit whose source has this surface.  Where the source was and which
types are nested in it is of no concern. -/
structure SourceAbi.Shows (abi surface : SourceAbi) : Prop where
  className : abi.className = surface.className
  publicTypes : abi.publicTypes = surface.publicTypes
  privateTypes : abi.privateTypes = surface.privateTypes

theorem SourceAbi.Shows.referencedTypes {abi surface : SourceAbi} (shows : abi.Shows surface) :
    abi.referencedTypes = surface.referencedTypes := by
  rw [SourceAbi.referencedTypes, SourceAbi.referencedTypes, shows.publicTypes, shows.privateTypes]

theorem SourceAbi.Shows.partitioned {abi surface : SourceAbi} (shows : abi.Shows surface)
    (partitioned : surface.Partitioned) : abi.Partitioned := by
  intro type isPublic
  rw [shows.publicTypes] at isPublic
  rw [shows.privateTypes]
  exact partitioned type isPublic

namespace Session

theorem Paired.loses_dropSource {session : Session} (paired : session.Paired) (source : Path) :
    Loses (fun name => session.recordedType? source = some name) session
      (session.dropSource source) := by
  unfold Session.dropSource
  cases recorded : session.recordedType? source with
  | none => exact .refl fun name => by simp
  | some name =>
      have owned : (session.withoutSource source).isOwnedBy name source := paired.isOwnedBy recorded
      have same : Loses (fun _ => False) session (session.withoutSource source) :=
        ⟨fun healthy => healthy, by simp, by simp⟩
      simp only [withoutOwned, if_pos owned]
      refine same.trans (.withoutClass _ name) fun other => ?_
      simp [eq_comm]

theorem Paired.recordedType?_dropSource {session : Session} (paired : session.Paired)
    (source other : Path) :
    (session.dropSource source).recordedType? other =
      if source.location = other.location then none else session.recordedType? other := by
  cases recorded : session.recordedType? source with
  | none =>
      have unchanged : session.dropSource source = session := by
        simp only [Session.dropSource, recorded]
      rw [unchanged]
      by_cases same : source.location = other.location
      · rw [if_pos same]
        rw [recordedType?] at recorded ⊢
        rw [← same, recorded]
      · rw [if_neg same]
  | some name =>
      have owned : (session.withoutSource source).isOwnedBy name source := paired.isOwnedBy recorded
      have changed : session.dropSource source = (session.withoutSource source).withoutClass name := by
        simp only [Session.dropSource, recorded, withoutOwned, if_pos owned]
      rw [changed, recordedType?, sourceToClass_withoutClass, getElem?_sourceToClass_withoutSource]
      rfl

theorem Paired.loses_foldl_dropSource {session : Session} (paired : session.Paired)
    (sources : List Path) :
    Loses (fun name => ∃ source ∈ sources, session.recordedType? source = some name) session
      (sources.foldl Session.dropSource session) := by
  induction sources generalizing session with
  | nil => exact .refl fun name => by simp
  | cons source sources ih =>
      refine (paired.loses_dropSource source).trans (ih (paired.dropSource source)) fun name => ?_
      simp only [List.mem_cons, exists_eq_or_imp, paired.recordedType?_dropSource]
      refine or_congr_right' fun unrecorded => exists_congr fun other => and_congr_right fun _ => ?_
      split
      next same =>
        rw [recordedType?, same] at unrecorded
        rw [recordedType?]
        simp [unrecorded]
      next => rfl

theorem Paired.recordedType?_foldl_dropSource {session : Session} (paired : session.Paired)
    (sources : List Path) (other : Path)
    (elsewhere : ∀ source ∈ sources, source.location ≠ other.location) :
    (sources.foldl Session.dropSource session).recordedType? other =
      session.recordedType? other := by
  induction sources generalizing session with
  | nil => rfl
  | cons source sources ih =>
      rw [List.forall_mem_cons] at elsewhere
      rw [List.foldl_cons, ih (paired.dropSource source) elsewhere.2,
        paired.recordedType?_dropSource, if_neg elsewhere.1]

/-! ## Taking in surfaces -/

section Learn

variable {session : Session} {learned : List (Declaration × SourceAbi)}

theorem getElem?_classToSource_learnAll
    (apart : learned.Pairwise fun first second => first.2.className ≠ second.2.className)
    (name : String) (path : Path) :
    (session.learnAll learned).classToSource[name]? = some path ↔
      (∃ entry ∈ learned, entry.2.className = name ∧ entry.1.source = path) ∨
        (∀ entry ∈ learned, entry.2.className ≠ name) ∧
          session.classToSource[name]? = some path := by
  induction learned generalizing session with
  | nil => simp
  | cons entry learned ih =>
      obtain ⟨declaration, abi⟩ := entry
      rw [List.pairwise_cons] at apart
      have first : (session.learn abi declaration.source).classToSource[name]? =
          if abi.className = name then some declaration.source else session.classToSource[name]? :=
        getElem?_classToSource_learn ..
      rw [learnAll_cons, ih apart.2, first]
      by_cases same : abi.className = name
      · subst same
        have others : ∀ entry ∈ learned, entry.2.className ≠ abi.className :=
          fun entry member => (apart.1 entry member).symm
        have none : ¬∃ entry ∈ learned, entry.2.className = abi.className ∧
            entry.1.source = path := by
          rintro ⟨entry, member, heq, -⟩
          exact others entry member heq
        simp only [none, ne_eq, if_true, Option.some.injEq, List.mem_cons,
          exists_eq_or_imp, true_and, false_or, or_false, forall_eq_or_imp, not_true_eq_false,
          false_and, and_iff_right_iff_imp]
        exact fun _ => others
      · simp [same]

theorem healthy_learn (healthy : session.graph.Healthy) {abi : SourceAbi}
    (partitioned : abi.Partitioned) (source : Path) :
    (session.learn abi source).graph.Healthy := by
  rw [graph_learn]
  exact healthy.update ⟨abi, partitioned⟩

theorem healthy_learnAll (healthy : session.graph.Healthy)
    (partitioned : ∀ entry ∈ learned, entry.2.Partitioned) :
    (session.learnAll learned).graph.Healthy := by
  induction learned generalizing session with
  | nil => exact healthy
  | cons entry learned ih =>
      rw [List.forall_mem_cons] at partitioned
      exact ih (healthy_learn healthy partitioned.1 _) partitioned.2

theorem dependsOn_learnAll (healthy : session.graph.Healthy)
    (partitioned : ∀ entry ∈ learned, entry.2.Partitioned)
    (apart : learned.Pairwise fun first second => first.2.className ≠ second.2.className)
    (name type : String) (isPrivate : Bool) :
    (session.learnAll learned).graph.DependsOn name type isPrivate ↔
      (∃ entry ∈ learned, entry.2.className = name ∧
        (type, isPrivate) ∈ entry.2.referencedTypes) ∨
      (∀ entry ∈ learned, entry.2.className ≠ name) ∧
        session.graph.DependsOn name type isPrivate := by
  induction learned generalizing session with
  | nil => simp
  | cons entry learned ih =>
      obtain ⟨declaration, abi⟩ := entry
      rw [List.pairwise_cons] at apart
      rw [List.forall_mem_cons] at partitioned
      rw [learnAll_cons, ih (healthy_learn healthy partitioned.1 _) partitioned.2 apart.2, graph_learn,
        Graph.dependsOn_update healthy.mirrored healthy.settled partitioned.1]
      by_cases same : name = abi.className
      · subst same
        have others : ∀ entry ∈ learned, entry.2.className ≠ abi.className :=
          fun entry member => (apart.1 entry member).symm
        have none : ¬∃ entry ∈ learned, entry.2.className = abi.className ∧
            (type, isPrivate) ∈ entry.2.referencedTypes := by
          rintro ⟨entry, member, heq, -⟩
          exact others entry member heq
        simp only [none, if_true, List.mem_cons, exists_eq_or_imp, true_and, false_or, or_false,
          ne_eq, forall_eq_or_imp, not_true_eq_false, false_and, and_iff_right_iff_imp]
        exact fun _ => others
      · simp [same, Ne.symm same]

theorem contains_learnAll (healthy : session.graph.Healthy)
    (partitioned : ∀ entry ∈ learned, entry.2.Partitioned) (name : String) :
    (session.learnAll learned).graph.contains name ↔
      (∃ entry ∈ learned, entry.2.className = name ∨
        ∃ isPrivate, (name, isPrivate) ∈ entry.2.referencedTypes) ∨ session.graph.contains name := by
  induction learned generalizing session with
  | nil => simp
  | cons entry learned ih =>
      obtain ⟨declaration, abi⟩ := entry
      rw [List.forall_mem_cons] at partitioned
      rw [learnAll_cons, ih (healthy_learn healthy partitioned.1 _) partitioned.2, graph_learn,
        Graph.contains_update healthy.mirrored healthy.settled partitioned.1, List.exists_mem_cons_iff]
      constructor
      · rintro (later | mentioned | same | before)
        · exact .inl (.inr later)
        · exact .inl (.inl (.inr mentioned))
        · exact .inl (.inl (.inl same.symm))
        · exact .inr before
      · rintro (((same | mentioned) | later) | before)
        · exact .inr (.inr (.inl same.symm))
        · exact .inr (.inl mentioned)
        · exact .inl later
        · exact .inr (.inr (.inr before))

end Learn

/-! ## Reflecting sources -/

/-- The session knows exactly the types of the sources with surfaces, each under its source, and
exactly what these surfaces mention. -/
structure Reflects (session : Session) (surfaces : Path → Option PartitionedAbi) : Prop where
  paired : session.Paired
  healthy : session.graph.Healthy
  classes : ∀ name path, session.classToSource[name]? = some path ↔
    ∃ abi, surfaces path = some abi ∧ abi.1.className = name
  depends : ∀ name type isPrivate, session.graph.DependsOn name type isPrivate ↔
    ∃ path abi, surfaces path = some abi ∧ abi.1.className = name ∧
      (type, isPrivate) ∈ abi.1.referencedTypes

theorem reflects_forgetAll (session : Session) : session.forgetAll.Reflects fun _ => none where
  paired := paired_forgetAll session
  healthy := .empty
  classes name path := by simp [forgetAll]
  depends name type isPrivate := by simp [forgetAll, Graph.DependsOn]

theorem Reflects.ofStored {session : Session} {surfaces : Path → Option PartitionedAbi}
    (reflects : session.Reflects surfaces) :
    (Session.ofStored session.classToSource session.graph).Reflects surfaces where
  paired := reflects.paired.ofStored session.graph
  healthy := reflects.healthy
  classes := reflects.classes
  depends := reflects.depends

theorem Reflects.recordedType?_eq_some_iff {session : Session}
    {surfaces : Path → Option PartitionedAbi} (reflects : session.Reflects surfaces) (path : Path)
    (name : String) :
    session.recordedType? path = some name ↔ ∃ source abi, surfaces source = some abi ∧
      abi.1.className = name ∧ source.location = path.location := by
  rw [recordedType?, reflects.paired]
  simp only [reflects.classes]
  constructor
  · rintro ⟨source, ⟨abi, found, named⟩, here⟩
    exact ⟨source, abi, found, named, here⟩
  · rintro ⟨source, abi, found, named, here⟩
    exact ⟨source, ⟨abi, found, named⟩, here⟩

def TypesApart (surfaces : Path → Option PartitionedAbi) : Prop :=
  ∀ path other first second, surfaces path = some first → surfaces other = some second →
    first.1.className = second.1.className → path = other

theorem Reflects.typesApart {session : Session} {surfaces : Path → Option PartitionedAbi}
    (reflects : session.Reflects surfaces) : TypesApart surfaces := by
  intro path other first second hfirst hsecond same
  have found := (reflects.classes _ path).mpr ⟨first, hfirst, rfl⟩
  rw [same, (reflects.classes _ other).mpr ⟨second, hsecond, rfl⟩] at found
  exact (Option.some.inj found).symm

/-! ## From some sources to others -/

section Replace

variable {old new : Path → Option PartitionedAbi} {removed : List Path}
  {learned : List (Declaration × SourceAbi)}

def Lost (old : Path → Option PartitionedAbi) (removed : List Path)
    (learned : List (Declaration × SourceAbi)) (name : String) : Prop :=
  (∃ path ∈ removed, ∃ abi, old path = some abi ∧ abi.1.className = name) ∨
    (∃ entry ∈ learned, ∃ abi, old entry.1.source = some abi ∧ abi.1.className = name) ∧
      ∀ entry ∈ learned, entry.1.name ≠ name

structure Replaces (old new : Path → Option PartitionedAbi) (removed : List Path)
    (learned : List (Declaration × SourceAbi)) : Prop where
  spelled : ∀ path other, ((old path).isSome ∨ (new path).isSome) →
    (other ∈ removed ∨ (new other).isSome) → path.location = other.location → path = other
  shows : ∀ entry ∈ learned, ∃ abi, new entry.1.source = some abi ∧ entry.2.Shows abi ∧
    entry.1.name = abi.1.className
  gone : ∀ path ∈ removed, new path = none
  kept : ∀ path, (∀ entry ∈ learned, entry.1.source ≠ path) → (new path).isSome →
    old path = new path
  /-- A missing source that is not removed was moved. -/
  missing : ∀ path abi, old path = some abi → new path = none →
    path ∈ removed ∨ ∃ entry ∈ learned, entry.1.name = abi.1.className
  /-- What is not taken in again does not mention a type that is lost. -/
  unseen : ∀ path abi, new path = some abi → (∀ entry ∈ learned, entry.1.source ≠ path) →
    ∀ type isPrivate, (type, isPrivate) ∈ abi.1.referencedTypes → ¬Lost old removed learned type

namespace Replaces

theorem className_eq (replaces : Replaces old new removed learned)
    {entry : Declaration × SourceAbi} (member : entry ∈ learned) :
    entry.2.className = entry.1.name := by
  obtain ⟨abi, -, shows, name⟩ := replaces.shows entry member
  rw [shows.className, name]

theorem shows_of_new (replaces : Replaces old new removed learned)
    {entry : Declaration × SourceAbi} (member : entry ∈ learned) {abi : PartitionedAbi}
    (found : new entry.1.source = some abi) : entry.2.Shows abi := by
  obtain ⟨other, foundOther, shows, -⟩ := replaces.shows entry member
  rw [found] at foundOther
  rw [Option.some.inj foundOther]
  exact shows

theorem partitioned (replaces : Replaces old new removed learned) :
    ∀ entry ∈ learned, entry.2.Partitioned := by
  intro entry member
  obtain ⟨abi, -, shows, -⟩ := replaces.shows entry member
  exact shows.partitioned abi.property

theorem pairwise_className (replaces : Replaces old new removed learned) (apart : TypesApart new)
    (places : learned.Pairwise fun first second =>
      first.1.source.location ≠ second.1.source.location) :
    learned.Pairwise fun first second => first.2.className ≠ second.2.className := by
  refine places.imp_of_mem ?_
  intro first second hfirst hsecond different same
  obtain ⟨abi, found, shows, -⟩ := replaces.shows first hfirst
  obtain ⟨other, foundOther, showsOther, -⟩ := replaces.shows second hsecond
  refine different (congrArg Path.location (apart _ _ _ _ found foundOther ?_))
  rw [← shows.className, ← showsOther.className, same]

theorem survives_iff (replaces : Replaces old new removed learned) (apart : TypesApart new)
    (unique : TypesApart old) (path : Path) (abi : PartitionedAbi) :
    old path = some abi ∧ (∀ entry ∈ learned, entry.2.className ≠ abi.1.className) ∧
        ¬Lost old removed learned abi.1.className ↔
      new path = some abi ∧ ∀ entry ∈ learned, entry.1.source ≠ path := by
  constructor
  · rintro ⟨before, unclaimed, kept⟩
    have untouched : ∀ entry ∈ learned, entry.1.source ≠ path := by
      rintro entry member rfl
      refine kept (.inr ⟨⟨entry, member, abi, before, rfl⟩, ?_⟩)
      intro other listed
      rw [← replaces.className_eq listed]
      exact unclaimed other listed
    cases now : new path with
    | none =>
        rcases replaces.missing path abi before now with gone | ⟨entry, member, claims⟩
        · exact absurd (.inl ⟨path, gone, abi, before, rfl⟩) kept
        · exact absurd ((replaces.className_eq member).trans claims) (unclaimed entry member)
    | some found =>
        have same := replaces.kept path untouched (by rw [now]; rfl)
        exact ⟨by rw [← now, ← same, before], untouched⟩
  · rintro ⟨now, untouched⟩
    have same := replaces.kept path untouched (by rw [now]; rfl)
    have before : old path = some abi := same.trans now
    refine ⟨before, ?_, ?_⟩
    · intro entry member claims
      obtain ⟨found, here, shows, -⟩ := replaces.shows entry member
      exact untouched entry member
        (apart _ _ _ _ here now (shows.className.symm.trans claims))
    · rintro (⟨other, gone, found, there, name⟩ | ⟨⟨entry, member, found, there, name⟩, -⟩)
      · obtain rfl := unique _ _ _ _ there before name
        rw [replaces.gone _ gone] at now
        cases now
      · exact untouched entry member (unique _ _ _ _ there before name)

end Replaces

/-- With every listed source in one spelling, the types that a session loses are those that are
lost. -/
theorem Reflects.loses {opened : Session} (reflects : opened.Reflects old)
    (replaces : Replaces old new removed learned) :
    Loses (Lost old removed learned) opened ((learned.map (·.1)).foldl
      (Session.dropPrevious (learned.map (·.1))) (removed.foldl Session.dropSource opened)) := by
  have paired := reflects.paired.foldl_dropSource removed
  refine (reflects.paired.loses_foldl_dropSource removed).trans
    (paired.loses_foldl_dropPrevious (List.Subset.refl (learned.map (·.1)))) fun name => ?_
  have recorded : ∀ path, path ∈ removed ∨ (new path).isSome →
      (opened.recordedType? path = some name ↔
        ∃ abi, old path = some abi ∧ abi.1.className = name) := by
    intro path listed
    rw [reflects.recordedType?_eq_some_iff]
    constructor
    · rintro ⟨source, abi, found, named, here⟩
      obtain rfl := replaces.spelled source path (.inl (by rw [found]; rfl)) listed here
      exact ⟨abi, found, named⟩
    · rintro ⟨abi, found, named⟩
      exact ⟨path, abi, found, named, rfl⟩
  have present : ∀ entry ∈ learned, (new entry.1.source).isSome := by
    intro entry member
    obtain ⟨abi, found, -⟩ := replaces.shows entry member
    rw [found]
    rfl
  rw [Lost, Forgets]
  refine or_congr ?_ (and_congr ?_ (by simp))
  · exact exists_congr fun path => and_congr_right fun gone => (recorded path (.inl gone)).symm
  · simp only [List.mem_map, exists_exists_and_eq_and]
    refine exists_congr fun entry => and_congr_right fun member => ?_
    rw [reflects.paired.recordedType?_foldl_dropSource, recorded _ (.inr (present entry member))]
    intro source gone here
    have same := replaces.spelled entry.1.source source (.inr (present entry member)) (.inl gone)
      here.symm
    have found := present entry member
    rw [same, replaces.gone source gone] at found
    cases found

/-- A session that reflected the old sources reflects the new ones once those that are missing are
removed and the others taken in. -/
theorem Reflects.replaced {toolchain : Toolchain} {outputRoot : Path} {sources : PathSet}
    {opened : Session} {middle after : OpenSession} (reflects : opened.Reflects old)
    (replaces : Replaces old new removed learned) (apart : TypesApart new)
    (dropped : middle.session = removed.foldl Session.dropSource opened)
    (refreshed : Refreshed toolchain outputRoot sources.toList middle after learned) :
    after.session.Reflects new := by
  have loses := reflects.loses replaces
  have changed := refreshed.session
  rw [dropped] at changed
  have survives := replaces.survives_iff apart reflects.typesApart
  have partitioned := replaces.partitioned
  have places := refreshed.pairwise_location
  have names := replaces.pairwise_className apart places
  refine ⟨?_, ?_, ?_, ?_⟩
  · have paired : middle.session.Paired := by
      rw [dropped]
      exact reflects.paired.foldl_dropSource removed
    exact paired.refreshed refreshed (fun entry member => replaces.className_eq member)
      (places.imp fun different same => absurd same.symm different)
  · rw [changed]
    exact healthy_learnAll (loses.healthy reflects.healthy) partitioned
  · intro name path
    rw [changed, getElem?_classToSource_learnAll names, loses.classes, reflects.classes]
    constructor
    · rintro (⟨entry, member, rfl, rfl⟩ | ⟨unclaimed, ⟨abi, before, rfl⟩, kept⟩)
      · obtain ⟨abi, found, shows, -⟩ := replaces.shows entry member
        exact ⟨abi, found, shows.className.symm⟩
      · exact ⟨abi, ((survives path abi).mp ⟨before, unclaimed, kept⟩).1, rfl⟩
    · rintro ⟨abi, now, rfl⟩
      by_cases taken : ∃ entry ∈ learned, entry.1.source = path
      · obtain ⟨entry, member, rfl⟩ := taken
        exact .inl ⟨entry, member, (replaces.shows_of_new member now).className, rfl⟩
      · obtain ⟨before, unclaimed, kept⟩ := (survives path abi).mpr ⟨now, by simpa using taken⟩
        exact .inr ⟨unclaimed, ⟨abi, before, rfl⟩, kept⟩
  · intro name type isPrivate
    rw [changed, dependsOn_learnAll (loses.healthy reflects.healthy) partitioned names,
      loses.depends reflects.healthy, reflects.depends]
    constructor
    · rintro (⟨entry, member, rfl, mentions⟩ | ⟨unclaimed, ⟨path, abi, before, rfl, mentions⟩, kept, -⟩)
      · obtain ⟨abi, found, shows, -⟩ := replaces.shows entry member
        rw [shows.referencedTypes] at mentions
        exact ⟨_, abi, found, shows.className.symm, mentions⟩
      · exact ⟨path, abi, ((survives path abi).mp ⟨before, unclaimed, kept⟩).1, rfl, mentions⟩
    · rintro ⟨path, abi, now, rfl, mentions⟩
      by_cases taken : ∃ entry ∈ learned, entry.1.source = path
      · obtain ⟨entry, member, rfl⟩ := taken
        have shows := replaces.shows_of_new member now
        rw [← shows.referencedTypes] at mentions
        exact .inl ⟨entry, member, shows.className, mentions⟩
      · have untouched : ∀ entry ∈ learned, entry.1.source ≠ path := by simpa using taken
        obtain ⟨before, unclaimed, kept⟩ := (survives path abi).mpr ⟨now, untouched⟩
        exact .inr ⟨unclaimed, ⟨path, abi, before, rfl, mentions⟩, kept,
          replaces.unseen path abi now untouched type isPrivate mentions⟩

end Replace

end Session

end AbiBuild
