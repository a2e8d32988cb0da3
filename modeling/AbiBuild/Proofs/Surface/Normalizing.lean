import AbiBuild.Proofs.Surface.Exploring
import AbiBuild.Proofs.Surface.Owners

/-!
# Normalized surfaces

Mentions are gathered under the names that stand in the class files and reported as the outermost
classes around them.  Several names may come down to one type, or to the source file itself, so what
is public, private and foreign is settled only after that.
-/

namespace AbiBuild.Surface

open ClassFile Files FileSystem

variable {files : FileSystem} {directory path : Path} {root : String}

/-! ## The table of all units -/

def lastOwner (lines : List NestedClass) (name : String) : Option String :=
  ((lines.filter (·.name = name)).filterMap (·.owner)).getLast?

theorem getElem?_addOwners (owners : Owners) (table : List NestedClass) (name : String) :
    (NestedClass.addOwners owners table)[name]? = (lastOwner table name).or owners[name]? := by
  induction table generalizing owners with
  | nil => rfl
  | cons line table ih =>
      have step : NestedClass.addOwners owners (line :: table) =
          NestedClass.addOwners (NestedClass.addOwners owners [line]) table := rfl
      rw [step, ih, NestedClass.addOwners, List.foldl_cons, List.foldl_nil]
      obtain ⟨lineName, owner, isPrivate⟩ := line
      by_cases same : lineName = name
      · subst same
        cases owner with
        | none => simp [lastOwner]
        | some owner =>
            simp [lastOwner, List.getLast?_cons, Option.or_of_isSome]
      · cases owner with
        | none => simp [lastOwner, same]
        | some owner => simp [lastOwner, same, Std.ExtTreeMap.getElem?_insert]

theorem lastOwner_append (first second : List NestedClass) (name : String) :
    lastOwner (first ++ second) name = (lastOwner second name).or (lastOwner first name) := by
  simp [lastOwner, List.getLast?_append]

/-- The owners that the tables of the units give, the last line about a class winning. -/
def Merges (visited : List LoadedUnit) (owners : Owners) : Prop :=
  ∃ tables, visited.mapM (fun loaded => nestedClasses loaded.unit) = .ok tables ∧
    ∀ name, owners[name]? = lastOwner tables.flatten name

theorem Merges.unique {visited : List LoadedUnit} {owners owners' : Owners}
    (merges : Merges visited owners) (merges' : Merges visited owners') : owners' = owners := by
  obtain ⟨tables, reads, gives⟩ := merges
  obtain ⟨tables', reads', gives'⟩ := merges'
  obtain rfl := Except.ok.inj (reads.symm.trans reads')
  refine Std.ExtTreeMap.ext_getElem? fun name => ?_
  rw [gives, gives']

structure Adds (visited : List LoadedUnit) (before after : Gathered) : Prop where
  owners : ∃ tables, visited.mapM (fun loaded => nestedClasses loaded.unit) = .ok tables ∧
    ∀ name, after.owners[name]? = (lastOwner tables.flatten name).or before.owners[name]?
  mentions : ∀ mention, mention ∈ after.mentions ↔
    mention ∈ before.mentions ∨ ∃ loaded ∈ visited, Occurs loaded.unit mention

theorem Explores.adds {waiting visited : List LoadedUnit} {gathered last : Gathered}
    {lookups : List String}
    (run : Explores files directory root waiting gathered visited lookups (.ok last)) :
    Adds visited gathered last := by
  generalize ends : Except.ok last = outcome at run
  induction run with
  | done gathered =>
      obtain rfl := Except.ok.inj ends
      exact ⟨⟨[], rfl, fun name => rfl⟩, by simp⟩
  | illegible | blocked => cases ends
  | @step loaded waiting gathered name table mentions found visited lookups outcome reveals finds rest
      ih =>
      obtain ⟨⟨tables, reads, gives⟩, mentioned⟩ := ih ends
      refine ⟨⟨table :: tables, ?_, fun other => ?_⟩, fun mention => ?_⟩
      · rw [List.mapM_cons, reveals.lists, reads]
        rfl
      · rw [gives, Gathered.adding, getElem?_addOwners, List.flatten_cons, lastOwner_append,
          Option.or_assoc]
      · rw [mentioned, Gathered.adding, List.mem_append, reveals.mem_mentions, or_assoc]
        simp only [List.mem_cons, exists_eq_or_imp]

/-! ## Outermost types -/

def MentionsWithin (visited : List LoadedUnit) (owners : Owners) (isPrivate : Bool) (type : String) :
    Prop :=
  ∃ loaded ∈ visited, ∃ name, Occurs loaded.unit ⟨name, isPrivate⟩ ∧ IsOutermost owners name type

def IsOwn (abi : SourceAbi) (type : String) : Prop :=
  type = abi.className ∨ type ∈ abi.innerClassNames

/-- What a surface says of the types that its units mention. -/
structure Normalized (visited : List LoadedUnit) (owners : Owners) (abi : SourceAbi) : Prop where
  /-- There is exactly one outermost class around each name. -/
  outermost : ∀ name, ∃! top, IsOutermost owners name top
  isPublic : ∀ type, type ∈ abi.publicTypes ↔
    MentionsWithin visited owners false type ∧ ¬IsOwn abi type
  isPrivate : ∀ type, type ∈ abi.privateTypes ↔
    (MentionsWithin visited owners true type ∧ ¬IsOwn abi type) ∧ type ∉ abi.publicTypes
  partitioned : abi.Partitioned
  foreign : ∀ type, type ∈ abi.publicTypes ∨ type ∈ abi.privateTypes → ¬IsOwn abi type
  unowned : ∀ type, type ∈ abi.publicTypes ∨ type ∈ abi.privateTypes → type ∉ owners
  /-- What is seen privately under one name and publicly under another is public only. -/
  publicWins : ∀ type, MentionsWithin visited owners true type →
    MentionsWithin visited owners false type → ¬IsOwn abi type →
      type ∈ abi.publicTypes ∧ type ∉ abi.privateTypes

section Types

variable {visited : List LoadedUnit} {gathered : Gathered} {start : ClassFile}

theorem mem_types (acyclic : Acyclic gathered.owners) (adds : Adds visited {} gathered)
    {isPrivate : Bool} {type : String} :
    type ∈ gathered.types root isPrivate ↔
      MentionsWithin visited gathered.owners isPrivate type ∧
        ¬IsOwn (gathered.surface root start) type := by
  simp only [Gathered.types, List.mem_filter, List.mem_map, decide_eq_true_eq, adds.mentions,
    List.not_mem_nil, false_or]
  refine and_congr ?_ ?_
  · constructor
    · rintro ⟨⟨name, visibility⟩, ⟨⟨loaded, member, occurs⟩, rfl⟩, rfl⟩
      exact ⟨loaded, member, name, occurs, (isOutermost_iff acyclic).mpr rfl⟩
    · rintro ⟨loaded, member, name, occurs, isTop⟩
      exact ⟨⟨name, isPrivate⟩, ⟨⟨loaded, member, occurs⟩, rfl⟩, ((isOutermost_iff acyclic).mp isTop).symm⟩
  · simp [IsOwn, Gathered.surface, SourceAbi.ofTypes]

theorem normalized_surface (acyclic : Acyclic gathered.owners) (adds : Adds visited {} gathered) :
    Normalized visited gathered.owners (gathered.surface root start) := by
  have isPublic : ∀ type, type ∈ (gathered.surface root start).publicTypes ↔
      MentionsWithin visited gathered.owners false type ∧
        ¬IsOwn (gathered.surface root start) type := by
    intro type
    rw [← mem_types acyclic adds]
    exact Names.mem_ofList _ _
  have isPrivate : ∀ type, type ∈ (gathered.surface root start).privateTypes ↔
      (MentionsWithin visited gathered.owners true type ∧
        ¬IsOwn (gathered.surface root start) type) ∧
          type ∉ (gathered.surface root start).publicTypes := by
    intro type
    rw [← mem_types acyclic adds]
    change type ∈ (SourceAbi.ofTypes root (gathered.types root false)
      (gathered.types root true)).privateTypes ↔ _ ∧ type ∉ Names.ofList (gathered.types root false)
    rw [SourceAbi.mem_privateTypes_ofTypes, Names.mem_ofList]
  have mentioned : ∀ type, type ∈ (gathered.surface root start).publicTypes ∨
      type ∈ (gathered.surface root start).privateTypes → ∃ visibility,
        MentionsWithin visited gathered.owners visibility type ∧
          ¬IsOwn (gathered.surface root start) type := by
    rintro type (member | member)
    · exact ⟨false, (isPublic type).mp member⟩
    · exact ⟨true, ((isPrivate type).mp member).1⟩
  refine ⟨fun name => ?_, isPublic, isPrivate,
    fun type there hidden => ((isPrivate type).mp hidden).2 there,
    fun type member => ?_, fun type member => ?_, fun type _ seen foreign => ?_⟩
  · exact ⟨_, (isOutermost_iff acyclic).mpr rfl, fun other => (isOutermost_iff acyclic).mp⟩
  · obtain ⟨-, -, foreign⟩ := mentioned type member
    exact foreign
  · obtain ⟨_, ⟨_, _, _, _, isTop⟩, _⟩ := mentioned type member
    exact isTop.unowned
  · have there := (isPublic type).mpr ⟨seen, foreign⟩
    exact ⟨there, fun member => ((isPrivate type).mp member).2 there⟩

end Types

/-- The units that reading the surface of a source file visits, in order. -/
def Visits (files : FileSystem) (path : Path) (visited : List LoadedUnit) : Prop :=
  ∃ root start lookups outcome, StartsAt files path root start ∧
    Explores files (homeOf path) root [⟨path, start⟩] {} visited lookups outcome

theorem StartsAt.unique {root' : String} {start start' : ClassFile}
    (starts : StartsAt files path root start) (starts' : StartsAt files path root' start') :
    root' = root ∧ start' = start := by
  obtain ⟨⟨content, reads, decodes⟩, isNamed⟩ := starts
  obtain ⟨⟨content', reads', decodes'⟩, isNamed'⟩ := starts'
  obtain rfl := Except.ok.inj (reads.symm.trans reads')
  obtain rfl := Except.ok.inj (decodes.symm.trans decodes')
  exact ⟨Except.ok.inj (isNamed'.symm.trans isNamed), rfl⟩

theorem Visits.unique {visited visited' : List LoadedUnit} (visits : Visits files path visited)
    (visits' : Visits files path visited') : visited' = visited := by
  obtain ⟨root, start, lookups, outcome, starts, run⟩ := visits
  obtain ⟨root', start', lookups', outcome', starts', run'⟩ := visits'
  obtain ⟨rfl, rfl⟩ := starts.unique starts'
  exact (run.unique run').1

theorem exists_visits {abi : SourceAbi} (reads : Surface.read files path = .ok abi) :
    ∃ root start gathered visited, StartsAt files path root start ∧
      gatherAll files (homeOf path) root (unitBound files) [⟨path, start⟩] {} = .ok gathered ∧
      abi = gathered.surface root start ∧ Visits files path visited ∧
      Merges visited gathered.owners ∧ Adds visited {} gathered := by
  obtain ⟨root, start, starts⟩ := exists_startsAt reads
  obtain ⟨visited, lookups, run⟩ := starts.exists_run
  obtain ⟨gathered, gathers, rfl⟩ := map_eq_ok.mp (starts.read_eq.symm.trans reads)
  rw [gathers] at run
  refine ⟨root, start, gathered, visited, starts, gathers, rfl, ⟨_, _, _, _, starts, run⟩, ?_,
    run.adds⟩
  obtain ⟨tables, read, gives⟩ := run.adds.owners
  exact ⟨tables, read, fun name => by rw [gives]; simp⟩

/-- The units that are visited, in their order, settle a table of owners, and where that table has no
circles the surface is normalized by it. -/
theorem surface_is_normalized {abi : SourceAbi} (reads : Surface.read files path = .ok abi) :
    ∃ visited owners, Visits files path visited ∧ Merges visited owners ∧
      (∀ visited' owners', Visits files path visited' → Merges visited' owners' →
        visited' = visited ∧ owners' = owners) ∧
      (Acyclic owners → Normalized visited owners abi) := by
  obtain ⟨root, start, gathered, visited, -, -, rfl, visits, merges, adds⟩ := exists_visits reads
  refine ⟨visited, gathered.owners, visits, merges, fun visited' owners' visits' merges' => ?_,
    fun acyclic => normalized_surface acyclic adds⟩
  obtain rfl := visits.unique visits'
  exact ⟨rfl, merges.unique merges'⟩

section Hiders

/-- `A` extends a class nested in `B`, and of its private classes one extends another class nested
in `B` and one a class inside a class nested in `C`. -/
def hiderFiles : FileSystem where
  entries := Std.ExtTreeMap.ofList
    [(["out"], .directory),
      (["out", "A.class"], .file (lister "A" "B$X"
        [⟨"A$P", "A", true⟩, ⟨"A$Q", "A", true⟩, ⟨"B$X", "B", false⟩])),
      (["out", "A$P.class"], .file (lister "A$P" "B$Y" [⟨"A$P", "A", true⟩, ⟨"B$Y", "B", false⟩])),
      (["out", "A$Q.class"], .file (lister "A$Q" "C$Z$W"
        [⟨"A$Q", "A", true⟩, ⟨"C$Z$W", "C$Z", false⟩, ⟨"C$Z", "C", false⟩]))]
    compare
  host := { workingDirectory := [] }

private theorem hiders_hold :
    (Surface.read hiderFiles ⟨"out/A.class"⟩).toOption.map
        (fun abi => (abi.className, abi.publicTypes.toList, abi.privateTypes.toList)) =
      some ("A", ["B"], ["C"]) ∧
    (((hiderFiles.read ⟨"out/A.class"⟩).toOption.bind fun content =>
      (ClassFile.ofBytes content).toOption).bind fun start =>
        (gatherAll hiderFiles (homeOf ⟨"out/A.class"⟩) "A" (unitBound hiderFiles)
          [⟨⟨"out/A.class"⟩, start⟩] {}).toOption).map (fun gathered =>
            gathered.owners.toList.all fun (name, owner) => owner.length < name.length) =
      some true := by
  decide +kernel

/-- Both classes nested in `B` come down to one public type. -/
theorem surface_is_normalized_of_hiders : ∃ abi visited owners,
    Surface.read hiderFiles ⟨"out/A.class"⟩ = .ok abi ∧
      abi.publicTypes.toList = ["B"] ∧ abi.privateTypes.toList = ["C"] ∧
      Visits hiderFiles ⟨"out/A.class"⟩ visited ∧ Merges visited owners ∧ Acyclic owners ∧
      Normalized visited owners abi := by
  obtain ⟨reported, owned⟩ := hiders_hold
  obtain ⟨abi, reads, shown⟩ := Option.map_eq_some_iff.mp reported
  simp only [Prod.mk.injEq] at shown
  have reads := eq_ok_of_toOption reads
  obtain ⟨visited, owners, visits, merges, only, normalized⟩ := surface_is_normalized reads
  obtain ⟨root, start, gathered, visited', starts, gathers, rfl, visits', merges', -⟩ :=
    exists_visits reads
  obtain ⟨rfl, rfl⟩ := only _ _ visits' merges'
  obtain rfl : root = "A" := shown.1
  -- The owners are those that gathering from the class file ends with.
  obtain ⟨⟨content, stored, decodes⟩, -⟩ := starts
  rw [stored, Except.toOption, Option.bind_some, decodes, Except.toOption, Option.bind_some, gathers,
    Except.toOption, Option.map_some, Option.some.injEq, List.all_eq_true] at owned
  have acyclic : Acyclic gathered.owners := by
    refine acyclic_of_length_lt fun name owner isOwned => ?_
    have member := Std.ExtTreeMap.mem_toList_iff_getElem?_eq_some.mpr isOwned
    simpa using owned (name, owner) member
  exact ⟨_, visited', _, reads, shown.2.1, shown.2.2, visits', merges', acyclic, normalized acyclic⟩

end Hiders

end AbiBuild.Surface
